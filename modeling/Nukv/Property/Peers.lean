import Nukv.Model.Cluster
import Nukv.Model.Options

/-!
# Peer lists

The text of a peer list is read back as the list, whatever bytes its hosts have: an id has no `=`, a port has no `:`,
and only a comma ends an item. In the other direction every list that `ParsePeers` accepts is one that `RaftNode` can
use: `ParseEndpoint` looks for the same colon and reads a port that has been read to its end before.
-/

namespace Nukv

open Options

/-! ### Finding a byte -/

theorem findByte_eq_none {b : UInt8} {text : Bytes} (h : b ∉ text) : findByte b text = none := by
  rw [findByte, List.findIdx?_eq_none_iff]
  intro c hc
  simpa using fun heq : c = b => h (heq ▸ hc)

theorem findByte_append {b : UInt8} {head : Bytes} (h : b ∉ head) (tail : Bytes) :
    findByte b (head ++ b :: tail) = some head.length := by
  have hnone : head.findIdx? (· == b) = none := findByte_eq_none h
  rw [findByte, List.findIdx?_append, hnone, List.findIdx?_cons]
  simp

theorem rfindByte_append {b : UInt8} {tail : Bytes} (h : b ∉ tail) (head : Bytes) :
    rfindByte b (head ++ b :: tail) = some head.length := by
  have habsent : b ∉ tail.reverse := by simpa using h
  have hfound := findByte_append habsent head.reverse
  rw [findByte] at hfound
  rw [rfindByte, List.reverse_append, List.reverse_cons, List.append_assoc, List.singleton_append, hfound]
  simp only [Option.map_some, List.length_append, List.length_cons, List.length_reverse, Option.some.injEq]
  omega

/-! ### Reading a list back -/

theorem stoi_digits {digits : Bytes} (hne : digits ≠ []) (hdigits : ∀ b ∈ digits, isDigit b)
    (hsmall : digitsValue digits < 2 ^ 31) : stoi digits = .ok (digitsValue digits, digits.length) := by
  unfold stoi
  simp only [scanInteger_digits hne hdigits, hne, if_false, Bool.false_eq_true]
  rw [if_neg (by omega)]

theorem parseInteger_digits {digits : Bytes} (hne : digits ≠ []) (hdigits : ∀ b ∈ digits, isDigit b)
    (hsmall : digitsValue digits < 2 ^ 31) (name : String) :
    parseInteger digits name = .ok (digitsValue digits) := by
  rw [parseInteger, stoi_digits hne hdigits hsmall]
  exact if_neg (not_not.mpr rfl)

/-- A peer as a configuration names it: a positive id, and an endpoint with a host that has no comma and a decimal
port. -/
structure RaftPeer.Proper (peer : RaftPeer) : Prop where
  positive : 1 ≤ peer.id
  int32 : peer.id < 2 ^ 31
  endpoint : ∃ host port : Bytes, peer.endpoint = host ++ 58 :: port ∧ host ≠ [] ∧ 44 ∉ host ∧ port ≠ [] ∧
    (∀ b ∈ port, isDigit b) ∧ 1 ≤ digitsValue port ∧ digitsValue port ≤ 65535

/-- The text `id=endpoint`. -/
def RaftPeer.text (peer : RaftPeer) : Bytes := decimalInt peer.id ++ 61 :: peer.endpoint

/-- The texts of the peers with commas between them. -/
def peersText (peers : List RaftPeer) : Bytes := [44].intercalate (peers.map RaftPeer.text)

theorem checkEndpoint_proper {peer : RaftPeer} (h : peer.Proper) : checkEndpoint peer.endpoint = .ok () := by
  obtain ⟨host, port, heq, hhost, -, hport, hdigits, hlow, hhigh⟩ := h.endpoint
  have hcolon : (58 : UInt8) ∉ port := fun hmem => absurd (hdigits 58 hmem) (by decide)
  have hdrop : (host ++ 58 :: port).drop (host.length + 1) = port := by
    rw [← List.drop_drop, List.drop_left]
    rfl
  have hlength : 0 < host.length ∧ 0 < port.length := ⟨List.length_pos_of_ne_nil hhost, List.length_pos_of_ne_nil hport⟩
  have hparse : parsePort port "peer port" = .ok (digitsValue port) := by
    rw [parsePort, parseInteger_digits hport hdigits (by omega)]
    exact if_neg (by omega)
  rw [checkEndpoint, heq, rfindByte_append hcolon]
  dsimp only
  rw [if_neg (by rw [List.length_append, List.length_cons]; omega), hdrop, hparse]
  rfl

theorem parseItem_text {peer : RaftPeer} (h : peer.Proper) {ids : Finset Int} (hnew : peer.id ∉ ids) :
    parseItem ids peer.text = .ok peer := by
  have hpos := h.positive
  have hsmall := h.int32
  obtain ⟨id, hid⟩ : ∃ id : Nat, peer.id = id := ⟨peer.id.toNat, by omega⟩
  have hdecimal : decimalInt peer.id = decimal id := by simp [hid, decimalInt]
  have hequals : (61 : UInt8) ∉ decimal id := fun hmem => absurd (isDigit_of_mem_decimal hmem) (by decide)
  have hlength : 0 < (decimal id).length := List.length_pos_of_ne_nil (decimal_ne_nil id)
  have hendpoint : 0 < peer.endpoint.length := by
    obtain ⟨host, port, heq, -⟩ := h.endpoint
    rw [heq, List.length_append, List.length_cons]
    omega
  have hdrop : (decimal id ++ 61 :: peer.endpoint).drop ((decimal id).length + 1) = peer.endpoint := by
    rw [← List.drop_drop, List.drop_left]
    rfl
  have hparse : parseInteger (decimal id) "peer id" = .ok peer.id := by
    rw [parseInteger_digits (decimal_ne_nil id) (fun _ => isDigit_of_mem_decimal)
      (by rw [digitsValue_decimal]; omega), digitsValue_decimal, hid]
  rw [parseItem, RaftPeer.text, hdecimal, findByte_append hequals]
  dsimp only
  rw [if_neg (by rw [List.length_append, List.length_cons]; omega), List.take_left, hparse, hdrop]
  change (if peer.id < 1 ∨ peer.id ∈ ids then _ else _) = _
  rw [if_neg (by simp [hnew]; omega), checkEndpoint_proper h]
  rfl

theorem RaftPeer.Proper.comma {peer : RaftPeer} (h : peer.Proper) : (44 : UInt8) ∉ peer.text := by
  obtain ⟨host, port, heq, -, hhost, -, hdigits, -⟩ := h.endpoint
  obtain ⟨id, hid⟩ : ∃ id : Nat, peer.id = id := ⟨peer.id.toNat, by have := h.positive; omega⟩
  have hdecimal : decimalInt peer.id = decimal id := by simp [hid, decimalInt]
  have hone : (44 : UInt8) ∉ decimal id := fun hmem => absurd (isDigit_of_mem_decimal hmem) (by decide)
  have htwo : (44 : UInt8) ∉ port := fun hmem => absurd (hdigits 44 hmem) (by decide)
  simp [RaftPeer.text, hdecimal, heq, hone, hhost, htwo]

theorem parsePeersLoop_text (peers : List RaftPeer) : ∀ (fuel : Nat) (done : List RaftPeer) (ids : Finset Int),
    (peersText peers).length ≤ fuel → (∀ peer ∈ peers, peer.Proper) → (peers.map RaftPeer.id).Nodup →
    (∀ peer ∈ peers, peer.id ∉ ids) → parsePeersLoop fuel done ids (peersText peers) = .ok (done ++ peers) := by
  induction peers with
  | nil =>
    intro fuel done ids _ _ _ _
    cases fuel <;> simp [parsePeersLoop, peersText]
  | cons peer rest ih =>
    intro fuel done ids hfuel hproper hnodup hnew
    have hpeer := hproper peer List.mem_cons_self
    have hitem := parseItem_text hpeer (hnew peer List.mem_cons_self)
    have hne : peer.text ≠ [] := by simp [RaftPeer.text]
    cases rest with
    | nil =>
      have htext : peersText [peer] = peer.text := by simp [peersText, List.intercalate]
      rw [htext] at hfuel ⊢
      obtain ⟨fuel, rfl⟩ : ∃ k, fuel = k + 1 :=
        Nat.exists_eq_succ_of_ne_zero (by have := List.length_pos_of_ne_nil hne; omega)
      rw [parsePeersLoop, if_neg hne, findByte_eq_none hpeer.comma, hitem]
      rfl
    | cons next rest =>
      have htext : peersText (peer :: next :: rest) = peer.text ++ 44 :: peersText (next :: rest) := by
        simp [peersText, List.intercalate]
      rw [htext] at hfuel ⊢
      rw [List.length_append, List.length_cons] at hfuel
      obtain ⟨fuel, rfl⟩ : ∃ k, fuel = k + 1 := Nat.exists_eq_succ_of_ne_zero (by omega)
      have hdrop : (peer.text ++ 44 :: peersText (next :: rest)).drop (peer.text.length + 1) =
          peersText (next :: rest) := by
        rw [← List.drop_drop, List.drop_left]
        rfl
      rw [parsePeersLoop, if_neg (by simp), findByte_append hpeer.comma]
      dsimp only
      rw [List.take_left, hdrop, hitem]
      rw [List.map_cons, List.nodup_cons] at hnodup
      have hrest := ih fuel (done ++ [peer]) (insert peer.id ids) (by omega)
        (fun p hp => hproper p (List.mem_cons_of_mem _ hp)) hnodup.2 fun p hp hmem => ?_
      · rw [List.append_assoc, List.singleton_append] at hrest
        exact hrest
      · rcases Finset.mem_insert.mp hmem with heq | hold
        · exact hnodup.1 (heq ▸ List.mem_map_of_mem hp)
        · exact hnew p (List.mem_cons_of_mem _ hp) hold

/-! ### What is accepted -/

/-- The endpoint of a peer as `ParsePeers` has checked it, and what `RaftNode` makes of it. -/
def RaftPeer.Usable (peer : RaftPeer) : Prop :=
  ∃ colon port, rfindByte 58 peer.endpoint = some colon ∧ peer.endpoint.take colon ≠ [] ∧
    parsePort (peer.endpoint.drop (colon + 1)) "peer port" = .ok port ∧
    parseEndpoint peer.endpoint = .ok (peer.endpoint.take colon, port)

theorem bind_eq_ok {α β : Type} {x : Except Exn α} {f : α → Except Exn β} {b : β} (h : (x >>= f) = .ok b) :
    ∃ a, x = .ok a ∧ f a = .ok b := by
  cases x with
  | error e => exact nomatch h
  | ok a => exact ⟨a, rfl, h⟩

theorem parsePort_stoi {value : Bytes} {name : String} {port : Int} (h : parsePort value name = .ok port) :
    stoi value = .ok (port, value.length) ∧ 1 ≤ port ∧ port ≤ 65535 := by
  obtain ⟨number, hnumber, hport⟩ := bind_eq_ok h
  obtain ⟨⟨parsed, length⟩, hstoi, hparsed⟩ := bind_eq_ok hnumber
  dsimp only at hparsed hport
  split at hparsed
  · cases hparsed
  · next hlength =>
    obtain rfl := Except.ok.inj hparsed
    obtain rfl : length = value.length := not_not.mp hlength
    split at hport
    · cases hport
    · next hrange =>
      obtain rfl := Except.ok.inj hport
      exact ⟨hstoi, by omega, by omega⟩

theorem checkEndpoint_usable {peer : RaftPeer} (h : checkEndpoint peer.endpoint = .ok ()) : peer.Usable := by
  unfold checkEndpoint at h
  split at h
  · cases h
  · next colon hcolon =>
    split at h
    · cases h
    · next hformat =>
      obtain ⟨port, hport, -⟩ := bind_eq_ok h
      obtain ⟨hstoi, hlow, hhigh⟩ := parsePort_stoi hport
      refine ⟨colon, port, hcolon, ?_, hport, ?_⟩
      · rw [ne_eq, List.take_eq_nil_iff, not_or]
        exact ⟨by omega, fun hnil => by rw [hnil] at hformat; simp at hformat⟩
      · rw [parseEndpoint, hcolon]
        dsimp only
        rw [if_neg hformat, hstoi]
        exact if_neg (by omega)

theorem parseInteger_int32 {value : Bytes} {name : String} {number : Int} (h : parseInteger value name = .ok number) :
    number < 2 ^ 31 := by
  obtain ⟨⟨parsed, length⟩, hstoi, hparsed⟩ := bind_eq_ok h
  dsimp only at hparsed
  split at hparsed
  · cases hparsed
  · obtain rfl := Except.ok.inj hparsed
    unfold stoi at hstoi
    generalize scanInteger value = scanned at hstoi
    obtain ⟨negative, digits, consumed⟩ := scanned
    dsimp only at hstoi
    generalize (if negative = true then -(digitsValue digits : Int) else digitsValue digits) = number at hstoi
    split at hstoi
    · cases hstoi
    · split at hstoi
      · cases hstoi
      · next hrange =>
        rw [(Prod.mk.inj (Except.ok.inj hstoi)).1, not_or] at hrange
        exact not_le.mp hrange.2

/-- What is true of a peer that was accepted. -/
def RaftPeer.Accepted (peer : RaftPeer) : Prop := 1 ≤ peer.id ∧ peer.id < 2 ^ 31 ∧ peer.Usable

theorem parseItem_ok {ids : Finset Int} {item : Bytes} {peer : RaftPeer} (h : parseItem ids item = .ok peer) :
    peer.id ∉ ids ∧ peer.Accepted := by
  unfold parseItem at h
  split at h
  · cases h
  · split at h
    · cases h
    · obtain ⟨id, hinteger, h⟩ := bind_eq_ok h
      dsimp only at h
      split at h
      · cases h
      · next hid =>
        obtain ⟨_, hcheck, h⟩ := bind_eq_ok h
        obtain rfl := Except.ok.inj h
        rw [not_or] at hid
        exact ⟨hid.2, not_lt.mp hid.1, parseInteger_int32 hinteger, checkEndpoint_usable hcheck⟩

/-- The invariant of the loop: the ids of the peers so far are distinct and are the ones that were seen. -/
theorem parsePeersLoop_ok {fuel : Nat} : ∀ {done : List RaftPeer} {ids : Finset Int} {text : Bytes}
    {peers : List RaftPeer}, parsePeersLoop fuel done ids text = .ok peers → (done.map RaftPeer.id).Nodup →
    (∀ id, id ∈ ids ↔ id ∈ done.map RaftPeer.id) → (∀ peer ∈ done, peer.Accepted) →
    (peers.map RaftPeer.id).Nodup ∧ ∀ peer ∈ peers, peer.Accepted := by
  induction fuel with
  | zero =>
    intro done ids text peers h hnodup _ hdone
    obtain rfl := Except.ok.inj h
    exact ⟨hnodup, hdone⟩
  | succ fuel ih =>
    intro done ids text peers h hnodup hids hdone
    have hadd : ∀ {item peer}, parseItem ids item = .ok peer → ((done ++ [peer]).map RaftPeer.id).Nodup ∧
        ∀ p ∈ done ++ [peer], p.Accepted := by
      intro item peer hitem
      obtain ⟨hnew, haccepted⟩ := parseItem_ok hitem
      refine ⟨?_, fun p hp => ?_⟩
      · rw [List.map_append, List.map_singleton, List.nodup_append]
        refine ⟨hnodup, List.nodup_singleton _, fun a ha b hb heq => ?_⟩
        rw [List.mem_singleton.mp hb] at heq
        exact hnew ((hids _).mpr (heq ▸ ha))
      · rcases List.mem_append.mp hp with hold | hlast
        · exact hdone p hold
        · obtain rfl := List.mem_singleton.mp hlast
          exact haccepted
    rw [parsePeersLoop] at h
    split at h
    · obtain rfl := Except.ok.inj h
      exact ⟨hnodup, hdone⟩
    · split at h
      · obtain ⟨peer, hitem, h⟩ := bind_eq_ok h
        obtain rfl := Except.ok.inj h
        exact hadd hitem
      · obtain ⟨peer, hitem, h⟩ := bind_eq_ok h
        obtain ⟨hnodup', hdone'⟩ := hadd hitem
        refine ih h hnodup' (fun id => ?_) hdone'
        rw [Finset.mem_insert, hids, List.map_append, List.mem_append, or_comm]
        simp

theorem parsePeers_ok {value : Bytes} {peers : List RaftPeer} (h : parsePeers value = .ok peers) :
    peers ≠ [] ∧ (peers.map RaftPeer.id).Nodup ∧ ∀ peer ∈ peers, peer.Accepted := by
  obtain ⟨found, hloop, h⟩ := bind_eq_ok h
  split at h
  · cases h
  · next hne =>
    obtain rfl := Except.ok.inj h
    exact ⟨hne, parsePeersLoop_ok hloop List.nodup_nil (by simp) (by simp)⟩

/-- The deployment that an accepted list describes. -/
def Config.ofPeers {value : Bytes} {peers : List RaftPeer} (h : parsePeers value = .ok peers) : Config where
  peers := peers.map RaftPeer.id
  nodup := (parsePeers_ok h).2.1
  positive id hid := by
    obtain ⟨peer, hpeer, rfl⟩ := List.mem_map.mp hid
    exact ((parsePeers_ok h).2.2 peer hpeer).1
  int32 id hid := by
    obtain ⟨peer, hpeer, rfl⟩ := List.mem_map.mp hid
    exact ((parsePeers_ok h).2.2 peer hpeer).2.1

/-- The text of every proper list of peers is read back as the list; and a list that is accepted is not empty, its ids
are distinct and positive, and `ParseEndpoint` takes each endpoint apart at the colon and into the port that `ParsePeers`
has checked. -/
theorem parsePeers_spec :
    (∀ peers : List RaftPeer, peers ≠ [] → (peers.map RaftPeer.id).Nodup → (∀ peer ∈ peers, peer.Proper) →
      parsePeers (peersText peers) = .ok peers) ∧
    ∀ value peers, parsePeers value = .ok peers → peers ≠ [] ∧ (peers.map RaftPeer.id).Nodup ∧
      ∀ peer ∈ peers, 1 ≤ peer.id ∧ peer.Usable := by
  constructor
  · intro peers hne hnodup hproper
    have hloop := parsePeersLoop_text peers (peersText peers).length [] ∅ le_rfl hproper hnodup (by simp)
    rw [parsePeers, hloop]
    exact if_neg hne
  · intro value peers h
    obtain ⟨hne, hnodup, haccepted⟩ := parsePeers_ok h
    exact ⟨hne, hnodup, fun peer hpeer => ⟨(haccepted peer hpeer).1, (haccepted peer hpeer).2.2⟩⟩

/-- Two peers, with a host that has both separators in it. -/
theorem parsePeers_spec_two : parsePeers (ascii "1=[::1]:19001,2=a=b:080") =
      .ok [⟨1, ascii "[::1]:19001"⟩, ⟨2, ascii "a=b:080"⟩] ∧
    parseEndpoint (ascii "a=b:080") = .ok (ascii "a=b", 80) := by
  have htext : ascii "1=[::1]:19001,2=a=b:080" = peersText [⟨1, ascii "[::1]:19001"⟩, ⟨2, ascii "a=b:080"⟩] := by
    decide
  have hread : parsePeers (peersText [⟨1, ascii "[::1]:19001"⟩, ⟨2, ascii "a=b:080"⟩]) =
      .ok [⟨1, ascii "[::1]:19001"⟩, ⟨2, ascii "a=b:080"⟩] := by
    refine parsePeers_spec.1 _ (by simp) (by decide) fun peer hpeer => ?_
    rcases List.mem_cons.mp hpeer with rfl | hpeer
    · exact ⟨by decide, by decide, ascii "[::1]", ascii "19001", by decide, by decide, by decide, by decide,
        by decide +kernel, by decide, by decide⟩
    · obtain rfl := List.mem_singleton.mp hpeer
      exact ⟨by decide, by decide, ascii "a=b", ascii "080", by decide, by decide, by decide, by decide,
        by decide +kernel, by decide, by decide⟩
  rw [htext]
  refine ⟨hread, ?_⟩
  obtain ⟨colon, port, hcolon, -, hport, hendpoint⟩ :=
    ((parsePeers_spec.2 _ _ hread).2.2 ⟨2, ascii "a=b:080"⟩ (by simp)).2
  obtain rfl : colon = 3 := Option.some.inj (hcolon.symm.trans (by decide))
  obtain rfl : port = 80 := Except.ok.inj (hport.symm.trans (by decide))
  exact hendpoint

end Nukv

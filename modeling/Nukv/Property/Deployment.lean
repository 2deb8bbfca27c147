import Nukv.Model.CommandLine
import Nukv.Property.Peers

/-!
# What a process is started with

A config file and a command line are two lists of settings, one behind the other. Each setting of the result is the last
one of its kind in both lists, or the default, so the command line overrides the file and the file the defaults. What is
accepted can be run: the ids of the peers are those of a deployment of the cluster, and `RaftNode` can take every endpoint
apart.
-/

namespace Nukv

namespace Options

/-- A setting and its value. -/
abbrev Given : Type := Setting × Bytes

/-- What a line of a config file sets. -/
def said (line : Bytes) : Option Given :=
  match readLine 0 line with
  | .ok given => given
  | .error _ => none

/-- What a config file sets. -/
def configSettings (files : Bytes → Option Bytes) (path : Bytes) : List Given :=
  if path = [] then [] else ((files path).getD [] |> getLines).filterMap said

/-- What a port in front of the options sets, and the options. -/
def portSettings : List Bytes → List Given × List Bytes
  | [] => ([], [])
  | port :: rest => if isPositional port then ([(.clientPort, port)], rest) else ([], port :: rest)

/-- What the arguments in front of the options set, and the options. -/
def positionalSettings : List Bytes → List Given × List Bytes
  | [] => ([], [])
  | nodeId :: rest =>
    if isPositional nodeId then ((.nodeId, nodeId) :: (portSettings rest).1, (portSettings rest).2)
    else ([], nodeId :: rest)

/-- What the options set. -/
def optionSettings : List Bytes → List Given
  | option :: value :: rest => ((optionSetting option).map fun setting => (setting, value)).toList ++ optionSettings rest
  | _ => []

/-- What a command line sets. -/
def commandSettings (arguments : List Bytes) : List Given :=
  (positionalSettings arguments).1 ++ optionSettings (positionalSettings arguments).2

/-- The settings one after the other. -/
def assignAll (given : List Given) (parsing : Parsing) : Except Exn Parsing :=
  given.foldlM (fun parsing g => assign g.1 g.2 parsing) parsing

/-- The value that a setting has at the end. -/
def lastOf (setting : Setting) (given : List Given) : Option Bytes :=
  given.foldl (fun last g => if g.1 = setting then some g.2 else last) none

theorem lastOf_concat (setting : Setting) (given : List Given) (g : Given) :
    lastOf setting (given ++ [g]) = if g.1 = setting then some g.2 else lastOf setting given := by
  simp [lastOf]

theorem assignAll_append {given given' : List Given} {parsing middle parsing' : Parsing}
    (h : assignAll given parsing = .ok middle) (h' : assignAll given' middle = .ok parsing') :
    assignAll (given ++ given') parsing = .ok parsing' := by
  unfold assignAll at h h' ⊢
  rw [List.foldlM_append, h]
  exact h'

theorem assignAll_cons {g : Given} {given : List Given} {parsing middle parsing' : Parsing}
    (h : assign g.1 g.2 parsing = .ok middle) (h' : assignAll given middle = .ok parsing') :
    assignAll (g :: given) parsing = .ok parsing' := by
  unfold assignAll at h' ⊢
  rw [List.foldlM_cons, h]
  exact h'

/-! ### The loops set what stands there -/

theorem readLine_said {number : Nat} {line : Bytes} {given : Option Given} (h : readLine number line = .ok given) :
    said line = given ∧ ∀ g ∈ given, g.2 ≠ [] := by
  unfold readLine at h
  unfold said readLine
  dsimp only at h ⊢
  split at h
  · next hempty =>
    obtain rfl := Except.ok.inj h
    rw [if_pos hempty]
    exact ⟨rfl, by simp⟩
  · next hline =>
    rw [if_neg hline]
    split at h
    · cases h
    · next separator hseparator =>
      split at h
      · cases h
      · next hempty =>
        split at h
        · cases h
        · next setting hsetting =>
          obtain rfl := Except.ok.inj h
          rw [if_neg hempty]
          refine ⟨rfl, fun g hg => ?_⟩
          obtain rfl := Option.some.inj hg
          exact fun hvalue => hempty (.inr hvalue)

theorem loadLines_assignAll {lines : List Bytes} : ∀ {number : Nat} {parsing parsing' : Parsing},
    loadLines number lines parsing = .ok parsing' →
    assignAll (lines.filterMap said) parsing = .ok parsing' ∧ ∀ g ∈ lines.filterMap said, g.2 ≠ [] := by
  induction lines with
  | nil =>
    intro number parsing parsing' h
    obtain rfl := Except.ok.inj h
    exact ⟨rfl, by simp⟩
  | cons line lines ih =>
    intro number parsing parsing' h
    rw [loadLines] at h
    obtain ⟨given, hline, h⟩ := bind_eq_ok h
    obtain ⟨hsaid, hvalue⟩ := readLine_said hline
    rw [List.filterMap_cons, hsaid]
    cases given with
    | none => exact ih h
    | some g =>
      obtain ⟨middle, hassign, h⟩ := bind_eq_ok h
      obtain ⟨hrest, hvalues⟩ := ih h
      refine ⟨assignAll_cons hassign hrest, fun g' hg' => ?_⟩
      rcases List.mem_cons.mp hg' with rfl | hg'
      · exact hvalue _ rfl
      · exact hvalues g' hg'

theorem parsePositional_assignAll {arguments rest : List Bytes} {parsing parsing' : Parsing}
    (h : parsePositional arguments parsing = .ok (parsing', rest)) :
    (positionalSettings arguments).2 = rest ∧ assignAll (positionalSettings arguments).1 parsing = .ok parsing' ∧
      ∀ value, (.dataDirectory, value) ∉ (positionalSettings arguments).1 := by
  cases arguments with
  | nil =>
    obtain ⟨rfl, rfl⟩ := Prod.mk.inj (Except.ok.inj h)
    exact ⟨rfl, rfl, by simp [positionalSettings]⟩
  | cons nodeId others =>
    rw [parsePositional] at h
    rw [positionalSettings]
    by_cases hfirst : isPositional nodeId = true
    · rw [if_pos hfirst] at h ⊢
      obtain ⟨middle, hnodeId, h⟩ := bind_eq_ok h
      cases others with
      | nil =>
        obtain ⟨rfl, rfl⟩ := Prod.mk.inj (Except.ok.inj h)
        exact ⟨rfl, assignAll_cons hnodeId rfl, by simp [portSettings]⟩
      | cons port others =>
        dsimp only at h
        rw [portSettings]
        by_cases hsecond : isPositional port = true
        · rw [if_pos hsecond] at h ⊢
          obtain ⟨last, hport, h⟩ := bind_eq_ok h
          obtain ⟨rfl, rfl⟩ := Prod.mk.inj (Except.ok.inj h)
          exact ⟨rfl, assignAll_cons hnodeId (assignAll_cons hport rfl), by simp⟩
        · rw [if_neg hsecond] at h ⊢
          obtain ⟨rfl, rfl⟩ := Prod.mk.inj (Except.ok.inj h)
          exact ⟨rfl, assignAll_cons hnodeId rfl, by simp⟩
    · rw [if_neg hfirst] at h ⊢
      obtain ⟨rfl, rfl⟩ := Prod.mk.inj (Except.ok.inj h)
      exact ⟨rfl, rfl, by simp⟩

theorem applyOption_assign {setting : Setting} {value : Bytes} {parsing parsing' : Parsing}
    (h : applyOption setting value parsing = .ok parsing') :
    assign setting value parsing = .ok parsing' ∧ (setting = .dataDirectory → value ≠ []) := by
  unfold applyOption at h
  split at h
  · cases h
  · next hvalue => exact ⟨h, fun hsetting hempty => hvalue ⟨hsetting, hempty⟩⟩

theorem parseArguments_assignAll (arguments : List Bytes) (parsing parsing' : Parsing)
    (h : parseArguments arguments parsing = .ok (some parsing')) :
    assignAll (optionSettings arguments) parsing = .ok parsing' ∧
      ∀ value, (.dataDirectory, value) ∈ optionSettings arguments → value ≠ [] := by
  induction arguments, parsing using parseArguments.induct with
  | case1 parsing =>
    obtain rfl := Option.some.inj (Except.ok.inj h)
    exact ⟨rfl, by simp [optionSettings]⟩
  | case2 parsing =>
    rw [parseArguments, if_pos rfl] at h
    cases Except.ok.inj h
  | case3 option parsing hhelp hvalue =>
    rw [parseArguments, if_neg hhelp, if_pos hvalue] at h
    cases h
  | case4 option parsing hhelp hvalue =>
    rw [parseArguments, if_neg hhelp, if_neg hvalue] at h
    cases h
  | case5 value rest parsing =>
    rw [parseArguments, if_pos rfl] at h
    cases Except.ok.inj h
  | case6 value rest parsing hhelp ih =>
    rw [parseArguments, if_neg hhelp, if_pos rfl] at h
    have hnone : optionSetting (ascii "--config") = none := by decide
    simpa [optionSettings, hnone] using ih h
  | case7 option value rest parsing hhelp hconfig hsetting =>
    rw [parseArguments, if_neg hhelp, if_neg hconfig, hsetting] at h
    cases h
  | case8 option value rest parsing hhelp hconfig setting hsetting ih =>
    rw [parseArguments, if_neg hhelp, if_neg hconfig, hsetting] at h
    obtain ⟨middle, happly, h⟩ := bind_eq_ok h
    obtain ⟨hassign, hvalue⟩ := applyOption_assign happly
    obtain ⟨hrest, hvalues⟩ := ih middle h
    rw [optionSettings, hsetting]
    refine ⟨assignAll_cons hassign hrest, fun v hv => ?_⟩
    rcases List.mem_cons.mp hv with heq | hv
    · obtain ⟨hdirectory, rfl⟩ := Prod.mk.inj heq
      exact hvalue hdirectory.symm
    · exact hvalues v hv

/-- The file first, then the command line. -/
theorem parseOptions_assignAll {files : Bytes → Option Bytes} {arguments : List Bytes} {options : ServerOptions}
    (h : parseOptions files arguments = .ok (some options)) :
    ∃ path parsing, configPath arguments [] = .ok path ∧
      assignAll (configSettings files path ++ commandSettings arguments) .start = .ok parsing ∧
      finish parsing = .ok options ∧
      ∀ value, (.dataDirectory, value) ∈ configSettings files path ++ commandSettings arguments → value ≠ [] := by
  obtain ⟨path, hpath, h⟩ := bind_eq_ok h
  obtain ⟨configured, hconfigured, h⟩ := bind_eq_ok h
  obtain ⟨⟨positioned, rest⟩, hpositional, h⟩ := bind_eq_ok h
  obtain ⟨result, harguments, h⟩ := bind_eq_ok h
  obtain ⟨hrest, hfirst, hnone⟩ := parsePositional_assignAll hpositional
  have hconfig : assignAll (configSettings files path) .start = .ok configured ∧
      ∀ g ∈ configSettings files path, g.2 ≠ [] := by
    unfold configure at hconfigured
    unfold configSettings
    by_cases hempty : path = []
    · rw [if_pos hempty] at hconfigured ⊢
      obtain rfl := Except.ok.inj hconfigured
      exact ⟨rfl, by simp⟩
    · rw [if_neg hempty] at hconfigured ⊢
      unfold loadConfig at hconfigured
      cases hfile : files path with
      | none =>
        rw [hfile] at hconfigured
        cases hconfigured
      | some content =>
        rw [hfile] at hconfigured
        exact loadLines_assignAll hconfigured
  cases result with
  | none => cases Except.ok.inj h
  | some parsing =>
    obtain ⟨accepted, hfinish, h⟩ := bind_eq_ok h
    obtain rfl := Option.some.inj (Except.ok.inj h)
    obtain ⟨hoptions, hvalues⟩ := parseArguments_assignAll rest positioned parsing harguments
    refine ⟨path, parsing, hpath, assignAll_append hconfig.1 (assignAll_append hfirst (hrest ▸ hoptions)), hfinish, ?_⟩
    intro value hvalue
    rcases List.mem_append.mp hvalue with hfile | hcommand
    · exact hconfig.2 _ hfile
    · rcases List.mem_append.mp hcommand with hpos | hopt
      · exact absurd hpos (hnone value)
      · exact hvalues value (hrest ▸ hopt)

/-! ### The last one counts -/

/-- The value of a setting has been read from this text. -/
def Parsing.Has : Setting → Bytes → Parsing → Prop
  | .nodeId, value, parsing => parsing.nodeIdSet = true ∧ parseInteger value "node_id" = .ok parsing.nodeId
  | .peers, value, parsing => parsing.peersSet = true ∧ parsePeers value = .ok parsing.peers
  | .clientPort, value, parsing => parsing.clientPortSet = true ∧ parsePort value "client_port" = .ok parsing.clientPort
  | .dataDirectory, value, parsing => parsing.dataDirectorySet = true ∧ value = parsing.dataDirectory

/-- Nothing was set. -/
def Parsing.Lacks : Setting → Parsing → Prop
  | .nodeId, parsing => parsing.nodeIdSet = false
  | .peers, parsing => parsing.peersSet = false
  | .clientPort, parsing => parsing.clientPortSet = false
  | .dataDirectory, parsing => parsing.dataDirectorySet = false

/-- A setting sets one thing and leaves the others. -/
theorem assign_spec {setting : Setting} {value : Bytes} {parsing parsing' : Parsing}
    (h : assign setting value parsing = .ok parsing') :
    parsing'.Has setting value ∧ ∀ other, setting ≠ other →
      (∀ v, parsing.Has other v → parsing'.Has other v) ∧ (parsing.Lacks other → parsing'.Lacks other) := by
  cases setting with
  | dataDirectory =>
    obtain rfl := Except.ok.inj h
    refine ⟨⟨rfl, rfl⟩, fun other hne => ?_⟩
    cases other <;> first | exact absurd rfl hne | exact ⟨fun v hv => hv, fun hlacks => hlacks⟩
  | _ =>
    obtain ⟨number, hparsed, h⟩ := bind_eq_ok h
    obtain rfl := Except.ok.inj h
    refine ⟨⟨rfl, hparsed⟩, fun other hne => ?_⟩
    cases other <;> first | exact absurd rfl hne | exact ⟨fun v hv => hv, fun hlacks => hlacks⟩

/-- Every setting is the last one of its kind. -/
def Parsing.Follows (parsing : Parsing) (given : List Given) : Prop :=
  ∀ setting, (∀ value, lastOf setting given = some value → parsing.Has setting value) ∧
    (lastOf setting given = none → parsing.Lacks setting)

/-- The induction is from the back, since the last setting decides. -/
theorem assignAll_follows (given : List Given) : ∀ {parsing : Parsing},
    assignAll given .start = .ok parsing → parsing.Follows given := by
  induction given using List.reverseRecOn with
  | nil =>
    intro parsing h setting
    obtain rfl := Except.ok.inj h
    refine ⟨fun value hvalue => by simp [lastOf] at hvalue, fun _ => ?_⟩
    cases setting <;> rfl
  | append_singleton given g ih =>
    intro parsing h setting
    unfold assignAll at h
    rw [List.foldlM_append] at h
    obtain ⟨middle, hmiddle, h⟩ := bind_eq_ok h
    obtain ⟨last, hassign, h⟩ := bind_eq_ok h
    obtain rfl := Except.ok.inj h
    obtain ⟨hhas, hothers⟩ := assign_spec hassign
    rw [lastOf_concat]
    by_cases hsetting : g.1 = setting
    · subst hsetting
      rw [if_pos rfl]
      exact ⟨fun value hvalue => Option.some.inj hvalue ▸ hhas, fun hnone => by cases hnone⟩
    · rw [if_neg hsetting]
      obtain ⟨hkeeps, hstays⟩ := hothers setting hsetting
      obtain ⟨hsome, hnone⟩ := ih hmiddle setting
      exact ⟨fun value hvalue => hkeeps value (hsome value hvalue), fun h => hstays (hnone h)⟩

/-! ### Checks and defaults -/

/-- What the end of `ParseOptions` has checked, and its defaults. -/
theorem finish_spec {parsing : Parsing} {options : ServerOptions} (h : finish parsing = .ok options) :
    (parsing.nodeIdSet = true ∧ 1 ≤ parsing.nodeId ∧ options.nodeId = parsing.nodeId) ∧
      (parsing.clientPortSet = true → options.clientPort = parsing.clientPort) ∧
      (parsing.clientPortSet = false → options.clientPort = 18000 + options.nodeId ∧ options.clientPort ≤ 65535) ∧
      (parsing.dataDirectorySet = true → options.dataDirectory = parsing.dataDirectory) ∧
      (parsing.dataDirectorySet = false →
        options.dataDirectory = ascii "./data/node" ++ decimalInt options.nodeId ∧ parsing.peersSet = false) ∧
      (parsing.peersSet = true → options.peers = parsing.peers) ∧
      (parsing.peersSet = false → options.peers = kDefaultPeers) := by
  unfold finish at h
  split at h
  · cases h
  · next hnodeId =>
    split at h
    · cases h
    · next hport =>
      split at h
      · cases h
      · next hdirectory =>
        obtain rfl := Except.ok.inj h
        rw [not_or, Bool.not_eq_false] at hnodeId
        refine ⟨⟨hnodeId.1, not_lt.mp hnodeId.2, rfl⟩, fun hset => if_pos hset, fun hset => ?_, fun hset => if_pos hset,
          fun hset => ⟨?_, ?_⟩, fun hset => if_pos hset, fun hset => ?_⟩
        · have hrange : ¬ 65535 < 18000 + parsing.nodeId := fun hlarge => hport ⟨hset, .inr hlarge⟩
          simp only [hset, Bool.false_eq_true, if_false]
          exact ⟨trivial, not_lt.mp hrange⟩
        · simp only [hset, Bool.false_eq_true, if_false]
        · exact Bool.eq_false_iff.mpr fun hpeers => hdirectory ⟨hpeers, hset⟩
        · simp only [hset, Bool.false_eq_true, if_false]

/-- Each option is what its last setting says, where the command line stands behind the config file, or the default. A list
of peers is taken only together with a data directory. -/
theorem last_setting_wins {files : Bytes → Option Bytes} {arguments : List Bytes} {options : ServerOptions}
    (h : parseOptions files arguments = .ok (some options)) :
    ∃ path given, configPath arguments [] = .ok path ∧
      given = configSettings files path ++ commandSettings arguments ∧
      (∃ value, lastOf .nodeId given = some value ∧ parseInteger value "node_id" = .ok options.nodeId) ∧
      (∀ value, lastOf .clientPort given = some value → parsePort value "client_port" = .ok options.clientPort) ∧
      (lastOf .clientPort given = none → options.clientPort = 18000 + options.nodeId) ∧
      (∀ value, lastOf .dataDirectory given = some value → options.dataDirectory = value) ∧
      (lastOf .dataDirectory given = none →
        options.dataDirectory = ascii "./data/node" ++ decimalInt options.nodeId ∧ lastOf .peers given = none) ∧
      (∀ value, lastOf .peers given = some value → parsePeers value = .ok options.peers) ∧
      (lastOf .peers given = none → options.peers = kDefaultPeers) := by
  obtain ⟨path, parsing, hpath, hassigned, hfinish, -⟩ := parseOptions_assignAll h
  have hspec := assignAll_follows _ hassigned
  obtain ⟨⟨hnodeIdSet, -, hnodeId⟩, hport, hdefaultPort, hdirectory, hdefaultDirectory, hpeers, hdefaultPeers⟩ :=
    finish_spec hfinish
  refine ⟨path, _, hpath, rfl, ?_, fun value hvalue => ?_, fun hnone => (hdefaultPort ((hspec .clientPort).2 hnone)).1,
    fun value hvalue => ?_, fun hnone => ⟨(hdefaultDirectory ((hspec .dataDirectory).2 hnone)).1, ?_⟩,
    fun value hvalue => ?_, fun hnone => hdefaultPeers ((hspec .peers).2 hnone)⟩
  · cases hlast : lastOf .nodeId (configSettings files path ++ commandSettings arguments) with
    | none => exact absurd (hnodeIdSet.symm.trans ((hspec .nodeId).2 hlast)) Bool.noConfusion
    | some value => exact ⟨value, rfl, hnodeId ▸ ((hspec .nodeId).1 value hlast).2⟩
  · obtain ⟨hset, hparsed⟩ := (hspec .clientPort).1 value hvalue
    rw [hport hset]
    exact hparsed
  · obtain ⟨hset, hparsed⟩ := (hspec .dataDirectory).1 value hvalue
    rw [hdirectory hset]
    exact hparsed.symm
  · -- with peers and without a directory the options would have been refused
    cases hlast : lastOf .peers (configSettings files path ++ commandSettings arguments) with
    | none => rfl
    | some value =>
      have hset := ((hspec .peers).1 value hlast).1
      exact absurd (hset.symm.trans (hdefaultDirectory ((hspec .dataDirectory).2 hnone)).2) Bool.noConfusion
  · obtain ⟨hset, hparsed⟩ := (hspec .peers).1 value hvalue
    rw [hpeers hset]
    exact hparsed

/-- The argument, the config file and the options that follow from them. -/
theorem parseOptions_overriding :
    parseOptions (fun _ => some (ascii "node_id = 2 # no\n\nclient_port=9000\n"))
        [ascii "3", ascii "--config", ascii "c", ascii "--client-port", ascii "7000"] =
      .ok (some ⟨3, 7000, ascii "./data/node3", kDefaultPeers⟩) := by
  decide +kernel

theorem last_setting_wins_overriding : ∃ given : List Given,
    (∃ value, lastOf .nodeId given = some value ∧ parseInteger value "node_id" = .ok 3) ∧
    (.nodeId, ascii "2") ∈ given ∧ ∀ value, lastOf .clientPort given = some value → parsePort value "client_port" = .ok 7000 := by
  obtain ⟨path, given, hpath, hgiven, hnodeId, hport, -⟩ := last_setting_wins parseOptions_overriding
  refine ⟨given, hnodeId, ?_, hport⟩
  obtain rfl : path = ascii "c" := (Except.ok.inj hpath).symm
  rw [hgiven]
  decide +kernel

/-! ### What is accepted -/

theorem mem_of_lastOf {setting : Setting} {given : List Given} {value : Bytes} (h : lastOf setting given = some value) :
    (setting, value) ∈ given := by
  induction given using List.reverseRecOn with
  | nil => simp [lastOf] at h
  | append_singleton given g ih =>
    rw [lastOf_concat] at h
    by_cases hsetting : g.1 = setting
    · rw [if_pos hsetting] at h
      obtain rfl := hsetting
      obtain rfl := Option.some.inj h
      exact List.mem_append_right _ (List.mem_singleton_self _)
    · rw [if_neg hsetting] at h
      exact List.mem_append_left _ (ih h)

/-- Which number a text holds does not depend on what it is for. -/
theorem parsePort_name {value : Bytes} {name : String} {port : Int} (h : parsePort value name = .ok port) (name' : String) :
    parsePort value name' = .ok port := by
  obtain ⟨hstoi, hlow, hhigh⟩ := parsePort_stoi h
  unfold parsePort parseInteger
  rw [hstoi]
  change (if value.length ≠ value.length then _ else _) >>= _ = _
  rw [if_neg (not_not.mpr rfl)]
  exact if_neg (by omega)

/-- The default peers are those of a text that `ParsePeers` accepts. -/
theorem parsePeers_default :
    parsePeers (ascii "1=127.0.0.1:19001,2=127.0.0.1:19002,3=127.0.0.1:19003") = .ok kDefaultPeers := by
  decide +kernel

theorem findLocalPeer_ok {peers : List RaftPeer} {nodeId : Int} {peer : RaftPeer}
    (h : findLocalPeer peers nodeId = .ok peer) : peer ∈ peers ∧ peer.id = nodeId := by
  unfold findLocalPeer at h
  cases hfind : peers.find? (fun peer => peer.id == nodeId) with
  | none =>
    rw [hfind] at h
    cases h
  | some found =>
    rw [hfind] at h
    obtain rfl := Except.ok.inj h
    exact ⟨List.mem_of_find?_eq_some hfind, by simpa using List.find?_some hfind⟩

/-- What is accepted can be run. The ports and the directory are proper, the ids of the peers are those of a deployment with
this node in it, and the port that `main` takes from the endpoint of the node is the one that `RaftNode` listens on. -/
theorem options_deployable {files : Bytes → Option Bytes} {arguments : List Bytes} {options : ServerOptions}
    (h : parseOptions files arguments = .ok (some options)) {peer : RaftPeer}
    (hlocal : findLocalPeer options.peers options.nodeId = .ok peer) :
    1 ≤ options.clientPort ∧ options.clientPort ≤ 65535 ∧ options.dataDirectory ≠ [] ∧
      (∃ config : Config, config.peers = options.peers.map RaftPeer.id ∧ options.nodeId ∈ config.peers) ∧
      (∀ peer ∈ options.peers, peer.Usable) ∧
      ∃ host port, raftPort peer = .ok port ∧ parseEndpoint peer.endpoint = .ok (host, port) := by
  obtain ⟨path, parsing, hpath, hassigned, hfinish, hvalues⟩ := parseOptions_assignAll h
  have hspec := assignAll_follows _ hassigned
  obtain ⟨⟨-, hpositive, hnodeId⟩, hport, hdefaultPort, hdirectory, hdefaultDirectory, hpeers, hdefaultPeers⟩ :=
    finish_spec hfinish
  obtain ⟨hmem, hid⟩ := findLocalPeer_ok hlocal
  -- whether they were given or not, the peers are what some text was parsed into
  obtain ⟨text, htext⟩ : ∃ text, parsePeers text = .ok options.peers := by
    cases hlast : lastOf .peers (configSettings files path ++ commandSettings arguments) with
    | none => exact ⟨_, hdefaultPeers ((hspec .peers).2 hlast) ▸ parsePeers_default⟩
    | some text =>
      obtain ⟨hset, hparsed⟩ := (hspec .peers).1 text hlast
      exact ⟨text, hpeers hset ▸ hparsed⟩
  have husable : ∀ peer ∈ options.peers, peer.Usable := fun p hp => ((parsePeers_ok htext).2.2 p hp).2.2
  have hclient : 1 ≤ options.clientPort ∧ options.clientPort ≤ 65535 := by
    cases hlast : lastOf .clientPort (configSettings files path ++ commandSettings arguments) with
    | none =>
      obtain ⟨heq, hsmall⟩ := hdefaultPort ((hspec .clientPort).2 hlast)
      exact ⟨by omega, hsmall⟩
    | some value =>
      obtain ⟨hset, hparsed⟩ := (hspec .clientPort).1 value hlast
      rw [hport hset]
      exact (parsePort_stoi hparsed).2
  refine ⟨hclient.1, hclient.2, ?_, ⟨.ofPeers htext, rfl, hid ▸ List.mem_map_of_mem hmem⟩, husable, ?_⟩
  · cases hlast : lastOf .dataDirectory (configSettings files path ++ commandSettings arguments) with
    | none =>
      rw [(hdefaultDirectory ((hspec .dataDirectory).2 hlast)).1]
      exact List.append_ne_nil_of_left_ne_nil (by decide) _
    | some value =>
      obtain ⟨hset, hparsed⟩ := (hspec .dataDirectory).1 value hlast
      rw [hdirectory hset, ← hparsed]
      exact hvalues value (mem_of_lastOf hlast)
  · obtain ⟨colon, port, hcolon, -, hparsed, hendpoint⟩ := husable peer hmem
    refine ⟨_, port, ?_, hendpoint⟩
    rw [raftPort, hcolon]
    exact parsePort_name hparsed _

theorem options_deployable_overriding : ∃ peer host port, findLocalPeer kDefaultPeers 3 = .ok peer ∧
    raftPort peer = .ok port ∧ parseEndpoint peer.endpoint = .ok (host, port) := by
  have hlocal : findLocalPeer kDefaultPeers 3 = .ok ⟨3, ascii "127.0.0.1:19003"⟩ := by decide +kernel
  obtain ⟨-, -, -, -, -, host, port, hraft, hendpoint⟩ := options_deployable parseOptions_overriding hlocal
  exact ⟨_, host, port, hlocal, hraft, hendpoint⟩

end Options

end Nukv

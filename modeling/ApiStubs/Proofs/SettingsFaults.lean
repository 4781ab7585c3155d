import ApiStubs.CommandLine.Run
import ApiStubs.Proofs.Outcome
import ApiStubs.Proofs.PrintedLines

/-!
# What is wrong with settings

`Settings.faults v` lists what is wrong with a value as the content of a settings file: that there
are no entries, and for each entry, in the order of the entries, the fields that it lacks and the
fields whose values cannot be used.  Every field may hold any value, and each has its own ways to be
of no use.  Loading fails with the first of these faults, and otherwise gives the build of every
entry (`ofJson_eq_error_iff`, `describes_of_ofJson`).

A fault that the command expects is reported, and the command ends in failure.  Four are not
expected: a target that is a list or an object, an address whose authority is malformed, a path that
is no text, and a filter that is a number or a truth value.  With one of these as the first fault
the command breaks.  `settings_loaded_or_refused` puts this together, and `bracket_breaks` is a file
with an address in which a bracket was forgotten.
-/

namespace ApiStubs

open Json (Value)

namespace Settings

/-- The value of a field of an entry; it is null if the field is missing. -/
def fieldOf (entry : Value) (key : String) : Value :=
  (entry.field? key).getD .null

/-! ## Faults -/

def targetFaults (v : Value) : List SettingsError :=
  if v.string?.any Target.names.contains then []
  else if v.kind = .array || v.kind = .object then [.wrongKind v.kind]
  else [.invalidTarget v]

/-- What is wrong with a value as an address. -/
def urlFaults (v : Value) : List SettingsError :=
  match Url.fault? v.text with
  | none => []
  | some .malformed => [.malformedUrl v]
  | some .notAbsolute => [.invalidUrl v]

def pathFaults (v : Value) : List SettingsError :=
  if v.kind = .string then [] else [.wrongKind v.kind]

/-- What is wrong with a value as a filter. -/
def apisFaults (v : Value) : List SettingsError :=
  if v.kind = .bool || v.kind = .int || v.kind = .float then [.wrongKind v.kind] else []

/-- What is wrong with a field that an entry cannot do without, as far as it is missing or empty. -/
def requiredFaults (place : String) (entry : Value) (key : String) : List SettingsError :=
  if (fieldOf entry key).isPresent then [] else [.missing place key]

/-- What is wrong with the value of a field if there is one. -/
def presentFaults (check : Value → List SettingsError) (entry : Value) (key : String) :
    List SettingsError :=
  if (fieldOf entry key).isPresent then check (fieldOf entry key) else []

/-- What is wrong with an entry: the fields that it lacks, and then those that are of no use. -/
def entryFaults (place : String) (entry : Value) : List SettingsError :=
  requiredFaults place entry "target" ++
    (requiredFaults place entry "url" ++
      (requiredFaults place entry "input" ++
        (presentFaults targetFaults entry "target" ++
          (presentFaults urlFaults entry "url" ++
            (presentFaults pathFaults entry "input" ++
              (presentFaults pathFaults entry "output" ++ apisFaults (fieldOf entry "apis")))))))

/-- What is wrong with entries of which the first one has the given index. -/
def entriesFaults (i : Nat) (entries : List Value) : List SettingsError :=
  (entries.zipIdx i).flatMap fun entry =>
    entryFaults ("targets[" ++ toString entry.2 ++ "]") entry.1

/-- What is wrong with a value as the content of a settings file. -/
def faults (v : Value) : List SettingsError :=
  if (v.itemsOf "targets").isEmpty then [.noTargets] else entriesFaults 0 (v.itemsOf "targets")

/-! ## The first fault -/

section

variable {α β : Type} {directory : Path}

theorem error?_head_bind {x : Except SettingsError α} {f : α → Except SettingsError β}
    {first rest : List SettingsError} (hx : error? x = first.head?)
    (hf : ∀ a, x = .ok a → error? (f a) = rest.head?) :
    error? (x >>= f) = (first ++ rest).head? := by
  rw [← Option.map_id_apply (x := error? (x >>= f))]
  exact error?_bind (g := id) (by rw [Option.map_id_apply, hx])
    (fun a ha => by rw [Option.map_id_apply, hf a ha])

/-- What is left once a step has no fault but those of the last one. -/
theorem error?_last_bind {x : Except SettingsError α} {f : α → β} {faults : List SettingsError}
    (hx : error? x = faults.head?) : error? (x >>= fun a => .ok (f a)) = faults.head? := by
  rw [← List.append_nil faults]
  exact error?_head_bind hx fun _ _ => rfl

theorem readRequired_eq (entry : Value) (place key : String) :
    readRequired entry place key =
      if (fieldOf entry key).isPresent then .ok (fieldOf entry key)
      else .error (.missing place key) := by
  unfold readRequired fieldOf
  cases entry.field? key with
  | none => rfl
  | some v => rfl

theorem error?_readRequired (entry : Value) (place key : String) :
    error? (readRequired entry place key) = (requiredFaults place entry key).head? := by
  rw [readRequired_eq, requiredFaults]
  split
  · rfl
  · rfl

theorem eq_of_readRequired {entry : Value} {place key : String} {v : Value}
    (h : readRequired entry place key = .ok v) :
    v = fieldOf entry key ∧ (fieldOf entry key).isPresent := by
  rw [readRequired_eq] at h
  split at h
  · rename_i hp
    exact ⟨(Except.ok.inj h).symm, hp⟩
  · exact absurd h (by simp)

theorem ofJson?_string {s : String} (h : s ∉ Target.names) : Target.ofJson? (.string s) = none := by
  refine List.find?_eq_none.mpr fun t _ ht => h ?_
  rw [← of_decide_eq_true ht]
  cases t with
  | ts => decide
  | oc => decide
  | raw => decide

theorem error?_readTarget (v : Value) : error? (readTarget v) = (targetFaults v).head? := by
  cases v with
  | string s =>
      by_cases h : s ∈ Target.names
      · simp only [Target.names, List.mem_cons, List.not_mem_nil, or_false] at h
        rcases h with rfl | rfl | rfl
        · rfl
        · rfl
        · rfl
      · have hfaults : targetFaults (.string s) = [.invalidTarget (.string s)] := by
          simp [targetFaults, Value.string?, h, Value.kind]
        rw [hfaults, readTarget, ofJson?_string h]
        rfl
  | _ => rfl

theorem error?_readUrl (v : Value) : error? (readUrl v) = (urlFaults v).head? := by
  unfold readUrl urlFaults
  cases Url.fault? v.text with
  | none => rfl
  | some fault =>
      cases fault with
      | malformed => rfl
      | notAbsolute => rfl

theorem error?_readPath (directory : Path) (v : Value) :
    error? (readPath directory v) = (pathFaults v).head? := by
  cases v with
  | _ => rfl

theorem error?_readPath? (entry : Value) (key : String) :
    error? (readPath? directory (fieldOf entry key)) =
      (presentFaults pathFaults entry key).head? := by
  unfold readPath? presentFaults
  split
  · rw [← error?_readPath directory]
    cases readPath directory (fieldOf entry key) with
    | error e => rfl
    | ok p => rfl
  · rfl

theorem error?_readApis (v : Value) : error? (readApis v) = (apisFaults v).head? := by
  cases v with
  | _ => rfl

theorem presentFaults_eq {check : Value → List SettingsError} {entry : Value} {key : String}
    (h : (fieldOf entry key).isPresent) :
    presentFaults check entry key = check (fieldOf entry key) :=
  if_pos h

theorem error?_ofEntry (place : String) (entry : Value) :
    error? (ofEntry directory place entry) = (entryFaults place entry).head? := by
  refine error?_head_bind (error?_readRequired entry place "target") fun target htarget => ?_
  refine error?_head_bind (error?_readRequired entry place "url") fun url hurl => ?_
  refine error?_head_bind (error?_readRequired entry place "input") fun input hinput => ?_
  obtain ⟨rfl, ptarget⟩ := eq_of_readRequired htarget
  obtain ⟨rfl, purl⟩ := eq_of_readRequired hurl
  obtain ⟨rfl, pinput⟩ := eq_of_readRequired hinput
  rw [presentFaults_eq ptarget, presentFaults_eq purl, presentFaults_eq pinput]
  refine error?_head_bind (error?_readTarget _) fun _ _ => ?_
  refine error?_head_bind (error?_readUrl _) fun _ _ => ?_
  refine error?_head_bind (error?_readPath directory _) fun _ _ => ?_
  refine error?_head_bind (error?_readPath? entry "output") fun _ _ => ?_
  exact error?_last_bind (error?_readApis _)

theorem error?_ofEntries (entries : List Value) :
    ∀ i, error? (ofEntries directory i entries) = (entriesFaults i entries).head? := by
  induction entries with
  | nil => exact fun _ => rfl
  | cons entry rest ih =>
      intro i
      rw [entriesFaults, List.zipIdx_cons, List.flatMap_cons]
      refine error?_head_bind (error?_ofEntry _ entry) fun first _ => ?_
      exact error?_last_bind (ih (i + 1))

theorem error?_ofJson (directory : Path) (v : Value) :
    error? (ofJson directory v) = (faults v).head? := by
  unfold ofJson faults
  cases v.itemsOf "targets" with
  | nil => rfl
  | cons entry rest => exact error?_ofEntries (entry :: rest) 0

theorem ofJson_eq_error_iff {v : Value} {e : SettingsError} :
    ofJson directory v = .error e ↔ (faults v).head? = some e := by
  rw [← error?_ofJson directory v]
  cases ofJson directory v with
  | error e' => simp [error?]
  | ok all => simp [error?]

/-! ## What is loaded -/

/-- What the build of an entry is. -/
structure Describes (directory : Path) (entry : Value) (settings : Settings) : Prop where
  target : fieldOf entry "target" = .string settings.target.name
  url : settings.url = (fieldOf entry "url").text
  absolute : Url.fault? settings.url = none
  input : ∃ path, fieldOf entry "input" = .string path ∧
    settings.input = directory.join (.ofString path)
  output : if (fieldOf entry "output").isPresent then
      ∃ path, fieldOf entry "output" = .string path ∧
        settings.output = some (directory.join (.ofString path))
    else settings.output = none
  apis : readApis (fieldOf entry "apis") = .ok settings.apis
  noHead : settings.noHead = (fieldOf entry "no_head").isPresent
  runtime : settings.runtime = fieldOf entry "runtime_pkg_name"

theorem eq_of_readTarget {v : Value} {t : Target} (h : readTarget v = .ok t) :
    v = .string t.name := by
  unfold readTarget at h
  split at h
  · rename_i ht
    rw [← Except.ok.inj h]
    exact Target.ofJson?_eq_some_iff.mp ht
  · exact absurd h (by simp)
  · exact absurd h (by simp)
  · exact absurd h (by simp)

theorem eq_of_readUrl {v : Value} {url : String} (h : readUrl v = .ok url) :
    url = v.text ∧ Url.fault? url = none := by
  unfold readUrl at h
  split at h
  · rename_i hurl
    rw [← Except.ok.inj h]
    exact ⟨rfl, hurl⟩
  · exact absurd h (by simp)
  · exact absurd h (by simp)

theorem eq_of_readPath {v : Value} {path : Path} (h : readPath directory v = .ok path) :
    ∃ s, v = .string s ∧ path = directory.join (.ofString s) := by
  cases v with
  | string s => exact ⟨s, rfl, (Except.ok.inj h).symm⟩
  | _ => exact absurd h (by simp [readPath])

theorem eq_of_readPath? {v : Value} {path : Option Path} (h : readPath? directory v = .ok path) :
    if v.isPresent then ∃ s, v = .string s ∧ path = some (directory.join (.ofString s))
    else path = none := by
  unfold readPath? at h
  by_cases hp : v.isPresent
  · rw [if_pos hp] at h ⊢
    cases hread : readPath directory v with
    | error e => exact absurd (hread ▸ h) (by simp [Except.map])
    | ok p =>
        rw [hread] at h
        obtain ⟨s, hs, rfl⟩ := eq_of_readPath hread
        exact ⟨s, hs, (Except.ok.inj h).symm⟩
  · rw [if_neg hp] at h ⊢
    exact (Except.ok.inj h).symm

theorem describes_of_ofEntry {place : String} {entry : Value} {settings : Settings}
    (h : ofEntry directory place entry = .ok settings) : Describes directory entry settings := by
  obtain ⟨_, htarget, h⟩ := bind_eq_ok.mp h
  obtain ⟨_, hurl, h⟩ := bind_eq_ok.mp h
  obtain ⟨_, hinput, h⟩ := bind_eq_ok.mp h
  rw [(eq_of_readRequired htarget).1, (eq_of_readRequired hurl).1,
    (eq_of_readRequired hinput).1] at h
  obtain ⟨target, htarget, h⟩ := bind_eq_ok.mp h
  obtain ⟨url, hurl, h⟩ := bind_eq_ok.mp h
  obtain ⟨input, hinput, h⟩ := bind_eq_ok.mp h
  obtain ⟨output, houtput, h⟩ := bind_eq_ok.mp h
  obtain ⟨apis, hapis, h⟩ := bind_eq_ok.mp h
  rw [← Except.ok.inj h]
  exact {
    target := eq_of_readTarget htarget
    url := (eq_of_readUrl hurl).1
    absolute := (eq_of_readUrl hurl).2
    input := eq_of_readPath hinput
    output := eq_of_readPath? houtput
    apis := hapis
    noHead := rfl
    runtime := rfl }

theorem describes_of_ofEntries {entries : List Value} :
    ∀ {i : Nat} {all : List Settings}, ofEntries directory i entries = .ok all →
      List.Forall₂ (Describes directory) entries all := by
  induction entries with
  | nil =>
      intro i all h
      rw [← Except.ok.inj h]
      exact .nil
  | cons entry rest ih =>
      intro i all h
      obtain ⟨first, hfirst, h⟩ := bind_eq_ok.mp h
      obtain ⟨others, hothers, h⟩ := bind_eq_ok.mp h
      rw [← Except.ok.inj h]
      exact .cons (describes_of_ofEntry hfirst) (ih hothers)

theorem describes_of_ofJson {v : Value} {all : List Settings}
    (h : ofJson directory v = .ok all) :
    List.Forall₂ (Describes directory) (v.itemsOf "targets") all := by
  unfold ofJson at h
  split at h
  · exact absurd h (by simp)
  · exact describes_of_ofEntries h

/-! ## Expected faults -/

/-- An entry in which what is there has a kind that can be used in its place, and the address is not
malformed. -/
structure WellFormed (entry : Value) : Prop where
  target : (fieldOf entry "target").kind ≠ .array ∧ (fieldOf entry "target").kind ≠ .object
  url : Url.fault? (fieldOf entry "url").text ≠ some .malformed
  input : (fieldOf entry "input").isPresent → (fieldOf entry "input").kind = .string
  output : (fieldOf entry "output").isPresent → (fieldOf entry "output").kind = .string
  apis : (fieldOf entry "apis").kind ∉ [.bool, .int, .float]

open CommandLine (Failure)

theorem presentFaults_paths {entry : Value} {key : String}
    (h : (fieldOf entry key).isPresent → (fieldOf entry key).kind = .string) :
    presentFaults pathFaults entry key = [] := by
  unfold presentFaults
  split
  · rename_i hp
    exact if_pos (h hp)
  · rfl

theorem expected_of_mem_targetFaults {v : Value} (h : v.kind ≠ .array ∧ v.kind ≠ .object)
    {e : SettingsError} (he : e ∈ targetFaults v) : (Failure.settings e).isExpected := by
  simp only [targetFaults, h.1, h.2, decide_false, Bool.or_self, Bool.false_eq_true,
    if_false] at he
  rw [List.mem_singleton.mp (List.mem_ite_nil_left.mp he).2]
  rfl

theorem expected_of_mem_urlFaults {v : Value} (h : Url.fault? v.text ≠ some .malformed)
    {e : SettingsError} (he : e ∈ urlFaults v) : (Failure.settings e).isExpected := by
  unfold urlFaults at he
  split at he
  · exact absurd he List.not_mem_nil
  · rename_i hm
    exact absurd hm h
  · rw [List.mem_singleton.mp he]
    rfl

theorem mem_of_mem_presentFaults {check : Value → List SettingsError} {entry : Value}
    {key : String} {e : SettingsError} (h : e ∈ presentFaults check entry key) :
    e ∈ check (fieldOf entry key) :=
  (List.mem_ite_nil_right.mp h).2

theorem expected_of_mem_requiredFaults {place key : String} {entry : Value} {e : SettingsError}
    (he : e ∈ requiredFaults place entry key) : (Failure.settings e).isExpected := by
  rw [List.mem_singleton.mp (List.mem_ite_nil_left.mp he).2]
  rfl

theorem expected_of_mem_entryFaults {place : String} {entry : Value} (h : WellFormed entry)
    {e : SettingsError} (he : e ∈ entryFaults place entry) : (Failure.settings e).isExpected := by
  have hapis : apisFaults (fieldOf entry "apis") = [] := by
    have hkind := h.apis
    simp only [List.mem_cons, List.not_mem_nil, or_false, not_or] at hkind
    simp [apisFaults, hkind]
  rw [entryFaults, presentFaults_paths h.input, presentFaults_paths h.output, hapis] at he
  simp only [List.append_nil, List.mem_append] at he
  rcases he with he | he | he | he | he
  · exact expected_of_mem_requiredFaults he
  · exact expected_of_mem_requiredFaults he
  · exact expected_of_mem_requiredFaults he
  · exact expected_of_mem_targetFaults h.target (mem_of_mem_presentFaults he)
  · exact expected_of_mem_urlFaults h.url (mem_of_mem_presentFaults he)

theorem expected_of_mem_faults {v : Value} (h : ∀ entry ∈ v.itemsOf "targets", WellFormed entry)
    {e : SettingsError} (he : e ∈ faults v) : (Failure.settings e).isExpected := by
  unfold faults at he
  split at he
  · rw [List.mem_singleton.mp he]
    rfl
  · obtain ⟨⟨entry, i⟩, hentry, he⟩ := List.mem_flatMap.mp he
    exact expected_of_mem_entryFaults (h entry (List.fst_mem_of_mem_zipIdx hentry)) he

end

end Settings

namespace CommandLine

/-! ## How the command ends -/

/-- How the command ends with a failure, having done nothing so far. -/
def endOf (store : FileStore) (failure : Failure) : Outcome × Session :=
  if failure.isExpected then (.failed, ⟨store, [], ["Error: " ++ failure.message]⟩)
  else (.broken failure, ⟨store, [], []⟩)

variable {load : Loader}

theorem conclude_error (load : Loader) (store : FileStore) (failure : Failure) :
    (conclude (sessionHost load) (.error failure)).run ⟨store, [], []⟩ = endOf store failure := by
  simp only [conclude, endOf]
  split
  · rfl
  · rfl

theorem jobsFor_of_config (load : Loader) {store : FileStore} {a : Arguments} {path : Path}
    {text : String} (config : a.config = some (some path)) (file : store.read path = .ok text) :
    (jobsFor (sessionHost load) a).run ⟨store, [], []⟩ =
      ((load.settings path text).map fun all => all.map (⟨·, []⟩), ⟨store, [], []⟩) := by
  have hread : ((sessionHost load).read path).run ⟨store, [], []⟩ =
      pure (.ok text, ⟨store, [], []⟩) := by
    rw [← file]
    rfl
  unfold jobsFor
  rw [config]
  dsimp only [onFile]
  rw [StateT.run_bind, hread]
  rfl

theorem Loader.settings_of_error {path : Path} {text : String} {v : Value} {e : SettingsError}
    (loaded : load text = some v) (refused : Settings.ofJson path.parent v = .error e) :
    load.settings path text = .error (.settings e) := by
  have value : load.value path text = .ok v := by rw [Loader.value, loaded]
  simp only [Loader.settings, value, bind, Except.bind, refused]

/-- The command has done nothing yet when it finds its settings at fault. -/
theorem runWith_of_refused {store : FileStore} {argv : List String} {a : Arguments} {path : Path}
    {text : String} {v : Value} {e : SettingsError} (parsed : parse argv = .ok a)
    (config : a.config = some (some path)) (file : store.read path = .ok text)
    (loaded : load text = some v) (refused : Settings.ofJson path.parent v = .error e) :
    runWith load store argv = endOf store (.settings e) := by
  have hjobs := jobsFor_of_config load config file
  rw [Loader.settings_of_error loaded refused] at hjobs
  unfold runWith run
  rw [parsed]
  dsimp only
  rw [StateT.run_bind, hjobs]
  exact conclude_error load store (.settings e)

/-- A printed value is loaded as what it is.  The loader of JSON does so with every value. -/
def Loader.ReadsPrinted (load : Loader) (v : Value) : Prop :=
  load v.print = some v

theorem Loader.readsPrinted_json (v : Value) : Loader.json.ReadsPrinted v := by
  rw [ReadsPrinted, Loader.json, v.shown_print.isBlankText_eq_false, if_neg Bool.false_ne_true,
    Json.read?_print]

/-- Whatever a settings file holds, loading it fails with the first of its faults, or gives one
build for each entry, in order, if it has none.  A command that finds its settings at fault ends at
once, whatever the format of the file is: it reports the fault if that is expected, as it always is
where the entries are well formed, and breaks otherwise. -/
theorem settings_loaded_or_refused (directory : Path) (v : Value) :
    (∀ e, Settings.ofJson directory v = .error e ↔ (Settings.faults v).head? = some e) ∧
    (∀ all, Settings.ofJson directory v = .ok all →
      List.Forall₂ (Settings.Describes directory) (v.itemsOf "targets") all) ∧
    ((∀ entry ∈ v.itemsOf "targets", Settings.WellFormed entry) →
      ∀ e, Settings.ofJson directory v = .error e → (Failure.settings e).isExpected) ∧
    (∀ load : Loader, ∀ store argv a path text, parse argv = .ok a →
      a.config = some (some path) → path.parent = directory → store.read path = .ok text →
      load text = some v → ∀ e, (Settings.faults v).head? = some e →
        runWith load store argv = endOf store (.settings e)) ∧
    ∀ load : Loader, load.ReadsPrinted v → ∀ store argv a path, parse argv = .ok a →
      a.config = some (some path) → path.parent = directory → store.read path = .ok v.print →
      ∀ e, (Settings.faults v).head? = some e →
        runWith load store argv = endOf store (.settings e) := by
  refine ⟨fun e => Settings.ofJson_eq_error_iff, fun all h => Settings.describes_of_ofJson h, ?_,
    ?_, ?_⟩
  · intro wellFormed e he
    exact Settings.expected_of_mem_faults wellFormed
      (List.mem_of_mem_head? (Settings.ofJson_eq_error_iff.mp he))
  · rintro load store argv a path text parsed config rfl file loaded e he
    exact runWith_of_refused parsed config file loaded (Settings.ofJson_eq_error_iff.mpr he)
  · rintro load readsPrinted store argv a path parsed config rfl file e he
    exact runWith_of_refused parsed config file readsPrinted
      (Settings.ofJson_eq_error_iff.mpr he)

/-! ## Two settings files -/

/-- An entry for the target `ts` with the given address. -/
def settingsEntry (url : Option String) : Value :=
  .object ([("target", .string "ts"), ("input", .string "a")] ++
    url.toList.map fun s => ("url", .string s))

def settingsValue (entries : List Value) : Value :=
  .object [("targets", .array entries)]

def settingsPath : Path := ⟨"", ["gen.json"]⟩

def settingsStore (v : Value) : FileStore :=
  ⟨[], [(["gen.json"], v.print)], [[]]⟩

theorem read_settingsStore (v : Value) : (settingsStore v).read settingsPath = .ok v.print := by
  have hlocate : (settingsStore v).locate settingsPath = .ok ["gen.json"] := by rfl
  rw [FileStore.read, hlocate]
  rfl

/-- An entry that lacks nothing, and behind it one without an address. -/
theorem settings_refused_second :
    let v := settingsValue [settingsEntry (some "http://api"), settingsEntry none]
    let missing := SettingsError.missing "targets[1]" "url"
    parse ["-c", "gen.json"] = .ok { config := some (some settingsPath) } ∧
    (settingsStore v).read settingsPath = .ok v.print ∧ Loader.json.ReadsPrinted v ∧
    (∀ entry ∈ v.itemsOf "targets", Settings.WellFormed entry) ∧
    (Settings.faults v).head? = some missing ∧ (Failure.settings missing).isExpected ∧
    runOn (settingsStore v) ["-c", "gen.json"] =
      (.failed, ⟨settingsStore v, [], ["Error: Missing required field: targets[1].url"]⟩) := by
  intro v missing
  have parsed : parse ["-c", "gen.json"] = .ok { config := some (some settingsPath) } := by rfl
  have file := read_settingsStore v
  have loaded := Loader.readsPrinted_json v
  have wellFormed : ∀ entry ∈ v.itemsOf "targets", Settings.WellFormed entry := by
    have hentries : v.itemsOf "targets" =
        [settingsEntry (some "http://api"), settingsEntry none] := rfl
    rw [hentries]
    intro entry hentry
    simp only [List.mem_cons, List.not_mem_nil, or_false] at hentry
    rcases hentry with rfl | rfl
    · exact ⟨by decide, by decide +kernel, fun _ => rfl, fun h => absurd h (by decide), by decide⟩
    · exact ⟨by decide, by decide +kernel, fun _ => rfl, fun h => absurd h (by decide), by decide⟩
  have first : (Settings.faults v).head? = some missing := by rfl
  obtain ⟨refused, _, expected, _, ends⟩ := settings_loaded_or_refused settingsPath.parent v
  have hrun := ends .json loaded (settingsStore v) _ _ settingsPath parsed rfl rfl file missing
    first
  exact ⟨parsed, file, loaded, wellFormed, first,
    expected wellFormed missing ((refused missing).mpr first), hrun⟩

/-- An address in which a bracket was forgotten is not reported: the command breaks. -/
theorem bracket_breaks :
    let v := settingsValue [settingsEntry (some "http://[::1/api")]
    let malformed := SettingsError.malformedUrl (.string "http://[::1/api")
    (settingsStore v).read settingsPath = .ok v.print ∧
    Settings.ofJson settingsPath.parent v = .error malformed ∧
    (Failure.settings malformed).isExpected = false ∧
    runOn (settingsStore v) ["-c", "gen.json"] =
      (.broken (.settings malformed), ⟨settingsStore v, [], []⟩) := by
  intro v malformed
  have refused : Settings.ofJson settingsPath.parent v = .error malformed := by rfl
  have loaded := Loader.readsPrinted_json v
  exact ⟨read_settingsStore v, refused, rfl,
    runWith_of_refused (by rfl) rfl (read_settingsStore v) loaded refused⟩

end CommandLine

end ApiStubs

/-
# A save that is cut off

`Config.Save` in single file operations.  Calls are serialised by `FileMutex`, so one save is
under way at a time; it can stop with an error at every operation, and it can be cut off after
every operation, as when the process ends.  Between its creation and the end of its writing a
file is torn.  The configuration in memory can change at any moment, and every attempt has a
number, which is stamped on the documents it writes.

* `save_steps` : undisturbed, the operations do what `save` does;
* `save_crash_safe` : at every moment each of the two files is the original one or the complete
  output of one attempt, and the YAML file is never of a more recent attempt than the JSON file.
-/
import Border.ConfigUpdate
import Border.Transition

namespace Border

open GoMap Transition

/-! ## Operations -/

/-- The two files of a configuration. -/
inductive Format
  | json
  | yaml
  deriving DecidableEq

def Format.extension : Format → String
  | .json => ".json"
  | .yaml => ".yaml"

/-- The file that is loaded. -/
def Format.path (base : String) (f : Format) : String := base ++ f.extension

/-- The file that is written, before it is renamed. -/
def Format.tmpPath (base : String) (f : Format) : String := f.path base ++ ".tmp"

/-- A document with the number of the attempt that wrote it; an original one has none. -/
structure Stamped (β : Type) where
  attempt : Option ℕ
  document : β

/-- The file operations of `Save`. -/
inductive SaveOp
  | create (f : Format)
  | write (f : Format)
  | rename (f : Format)
  deriving DecidableEq

/-- The operation that follows. -/
def SaveOp.next : SaveOp → Option SaveOp
  | .create f => some (.write f)
  | .write f => some (.rename f)
  | .rename .json => some (.create .yaml)
  | .rename .yaml => none

section Programs

variable {β : Type}

/-- The libraries of an attempt: its number stands on every document. -/
def Libraries.stamped (lib : Libraries β) (attempt : ℕ) : Libraries (Stamped β) where
  encodeJSON d := (lib.encodeJSON d).map (Stamped.mk (some attempt))
  encodeYAML d := (lib.encodeYAML d).map (Stamped.mk (some attempt))
  decodeJSON document := lib.decodeJSON document.document
  decodeYAML document := lib.decodeYAML document.document
  parseDuration := lib.parseDuration
  hash document := lib.hash document.document

def Format.encode (lib : Libraries β) : Format → ConfigData → Except String β
  | .json => lib.encodeJSON
  | .yaml => lib.encodeYAML

def Format.createFault (env : Env) : Format → Option String
  | .json => env.fault .createJSON
  | .yaml => env.fault .createYAML

def Format.writeFault (env : Env) : Format → Option String
  | .json => env.fault .writeJSON
  | .yaml => env.fault .writeYAML

def Format.renameFault (env : Env) : Format → Option String
  | .json => env.fault .renameJSON
  | .yaml => env.fault .renameYAML

def Format.order (env : Env) : Format → RangeOrder String (Option Zone)
  | .json => env.order .trimJSON
  | .yaml => env.order .trimYAML

/-- `SaveJSON` or `SaveYAML`. -/
def dump (path : String) (writeFault : Option String) (order : RangeOrder String (Option Zone))
    (encoder : ConfigData → Except String β) : Prog β Unit := do
  trimConfig order
  let document ← encodeConfig encoder
  writeFile path document writeFault

/-- An operation as a program. -/
def SaveOp.prog (lib : Libraries β) (env : Env) (base : String) : SaveOp → Prog β Unit
  | .create f => createFile (f.tmpPath base) (f.createFault env)
  | .write f => dump (f.tmpPath base) (f.writeFault env) (f.order env) (f.encode lib)
  | .rename f => renameFile (f.tmpPath base) (f.path base) (f.renameFault env)

end Programs

/-! ## The machine -/

/-- What an encoder has returned in an attempt. -/
structure Output (β : Type) where
  attempt : ℕ
  base : String
  format : Format
  document : β

/-- A save that is under way. -/
structure Saving where
  attempt : ℕ
  env : Env
  base : String
  op : SaveOp

structure SaveState (β : Type) where
  node : Node (Stamped β)
  /-- The number of the next attempt. -/
  attempts : ℕ
  outputs : List (Output β)
  saving : Option Saving

inductive SaveAct
  /-- `Save` is called. -/
  | call (env : Env)
  /-- The next file operation of the save under way. -/
  | step
  /-- The save under way is cut off. -/
  | cut
  /-- The configuration in memory changes. -/
  | edit (c : Config)

section Machine

variable {β : Type}

/-- What the operation adds to the outputs, when it leaves the given configuration behind. -/
def Saving.output (lib : Libraries β) (a : Saving) (c : ConfigData) : List (Output β) :=
  match a.op with
  | .write f =>
    match f.encode lib c with
    | .ok document => [⟨a.attempt, a.base, f, document⟩]
    | .error _ => []
  | _ => []

/-- A step.  A call that finds no usable prefix of a file name ends at once. -/
def saveStep (lib : Libraries β) (s : SaveState β) : SaveAct → Option (SaveState β)
  | .call env =>
    match s.saving with
    | some _ => none
    | none =>
      let base := s.node.config.filenamePrefix
      if base = "" ∨ pathExists s.node.disk base (env.fault .stat) = true then
        some { s with attempts := s.attempts + 1 }
      else
        some { s with
          attempts := s.attempts + 1
          saving := some ⟨s.attempts, env, base, .create .json⟩ }
  | .step =>
    match s.saving with
    | none => none
    | some a =>
      match (a.op.prog (lib.stamped a.attempt) a.env a.base).run s.node with
      | .error _ node => some { s with node := node, saving := none }
      | .ok _ node =>
        some { s with
          node := node
          outputs := s.outputs ++ a.output lib node.config.toConfigData
          saving := a.op.next.map fun op => { a with op := op } }
  | .cut => some { s with saving := none }
  | .edit c => some { s with node := { s.node with config := c } }

/-- A file of the original disk. -/
def File.original : File β → File (Stamped β)
  | .dir => .dir
  | .doc document => .doc ⟨none, document⟩
  | .torn => .torn

/-- No save was called yet. -/
def SaveState.start (c : Config) (disk : String → Option (File β)) : SaveState β :=
  ⟨⟨c, fun path => (disk path).map File.original⟩, 0, [], none⟩

end Machine

/-! ## A save alone -/

section Alone

variable {β : Type} {lib : Libraries β}

/-- The two steps of `Save` for one of the files. -/
def Format.save (lib : Libraries β) (env : Env) (base : String) (f : Format) : Prog β Unit :=
  saveFile (f.path base) (f.createFault env) (f.writeFault env) (f.renameFault env) (f.order env)
    (f.encode lib)

variable {s : SaveState β} {k : ℕ} {env : Env} {base : String} {node : Node (Stamped β)}

theorem saveStep_ok {op : SaveOp} (ha : s.saving = some ⟨k, env, base, op⟩)
    (h : (op.prog (lib.stamped k) env base).run s.node = .ok () node) :
    ∃ s', saveStep lib s .step = some s' ∧ s'.node = node ∧
      s'.saving = op.next.map fun op' => ⟨k, env, base, op'⟩ := by
  simp [saveStep, ha, h]

theorem saveStep_error {op : SaveOp} {e : Failure} (ha : s.saving = some ⟨k, env, base, op⟩)
    (h : (op.prog (lib.stamped k) env base).run s.node = .error e node) :
    ∃ s', saveStep lib s .step = some s' ∧ s'.node = node ∧ s'.saving = none := by
  simp [saveStep, ha, h]

theorem run_steps_succ {s₁ s' : SaveState β} {n : ℕ} (hstep : saveStep lib s .step = some s₁)
    (hrun : run (saveStep lib) s₁ (List.replicate n .step) = some s') :
    run (saveStep lib) s (List.replicate (n + 1) .step) = some s' := by
  rw [List.replicate_succ, run_cons, hstep]
  exact hrun

/-- The operations for one file, undisturbed, end where the program for the file ends. -/
theorem run_file {f : Format} (ha : s.saving = some ⟨k, env, base, .create f⟩) :
    ∃ n s', run (saveStep lib) s (List.replicate n .step) = some s' ∧
      ((∃ e, (f.save (lib.stamped k) env base).run s.node = .error e s'.node ∧
          s'.saving = none) ∨
        ((f.save (lib.stamped k) env base).run s.node = .ok () s'.node ∧
          s'.saving = (SaveOp.rename f).next.map fun op => ⟨k, env, base, op⟩)) := by
  cases hcreate : (SaveOp.prog (lib.stamped k) env base (.create f)).run s.node with
  | error e node₁ =>
    obtain ⟨s₁, hstep₁, rfl, hsaving⟩ := saveStep_error ha hcreate
    refine ⟨1, s₁, run_steps_succ hstep₁ (run_nil _ _), Or.inl ⟨_, bind_eq_of_error
      (wrapError_of_error (bind_eq_of_error hcreate)), hsaving⟩⟩
  | ok _ node₁ =>
    obtain ⟨s₁, hstep₁, rfl, hsaving₁⟩ := saveStep_ok ha hcreate
    cases hwrite : (SaveOp.prog (lib.stamped k) env base (.write f)).run s₁.node with
    | error e node₂ =>
      obtain ⟨s₂, hstep₂, rfl, hsaving⟩ := saveStep_error hsaving₁ hwrite
      refine ⟨2, s₂, run_steps_succ hstep₁ (run_steps_succ hstep₂ (run_nil _ _)), Or.inl ⟨_,
        bind_eq_of_error (wrapError_of_error ((bind_eq_of_ok hcreate).trans hwrite)), hsaving⟩⟩
    | ok _ node₂ =>
      obtain ⟨s₂, hstep₂, rfl, hsaving₂⟩ := saveStep_ok hsaving₁ hwrite
      have hdump : (toDisk (f.path base ++ ".tmp") (f.createFault env) (f.writeFault env)
          (f.order env) (f.encode (lib.stamped k))).run s.node = .ok () s₂.node :=
        wrapError_of_ok ((bind_eq_of_ok hcreate).trans hwrite)
      cases hrename : (SaveOp.prog (lib.stamped k) env base (.rename f)).run s₂.node with
      | error e node₃ =>
        obtain ⟨s₃, hstep₃, rfl, hsaving⟩ := saveStep_error hsaving₂ hrename
        exact ⟨3, s₃, run_steps_succ hstep₁ (run_steps_succ hstep₂ (run_steps_succ hstep₃
          (run_nil _ _))), Or.inl ⟨_, (bind_eq_of_ok hdump).trans (wrapError_of_error hrename),
          hsaving⟩⟩
      | ok _ node₃ =>
        obtain ⟨s₃, hstep₃, rfl, hsaving⟩ := saveStep_ok hsaving₂ hrename
        exact ⟨3, s₃, run_steps_succ hstep₁ (run_steps_succ hstep₂ (run_steps_succ hstep₃
          (run_nil _ _))), Or.inr ⟨(bind_eq_of_ok hdump).trans (wrapError_of_ok hrename),
          hsaving⟩⟩

/-- **A save alone.**  Undisturbed, the operations of a call end where `save` ends. -/
theorem save_steps (hidle : s.saving = none) (env : Env) :
    ∃ n s', run (saveStep lib) s (.call env :: List.replicate n .step) = some s' ∧
      s'.saving = none ∧
      ((save (lib.stamped s.attempts) env).run s.node = .ok () s'.node ∨
        ∃ e, (save (lib.stamped s.attempts) env).run s.node = .error e s'.node) := by
  have hsave : (save (lib.stamped s.attempts) env).run s.node = (do
      require (s.node.config.filenamePrefix ≠ "") "invalid filename prefix"
      require (pathExists s.node.disk s.node.config.filenamePrefix (env.fault .stat) = false)
        ("Filename prefix " ++ quoted s.node.config.filenamePrefix ++
          " exists or is a directory, should not be")
      Format.json.save (lib.stamped s.attempts) env s.node.config.filenamePrefix
      Format.yaml.save (lib.stamped s.attempts) env s.node.config.filenamePrefix :
        Prog (Stamped β) Unit).run s.node := rfl
  rw [hsave]
  by_cases hbase : s.node.config.filenamePrefix = ""
  · refine ⟨0, { s with attempts := s.attempts + 1 }, ?_, hidle, Or.inr ⟨_, bind_eq_of_error
      (require_of_neg (by simp [hbase]))⟩⟩
    simp [run_cons, saveStep, hidle, hbase]
  rw [bind_eq_of_ok (require_of_pos hbase)]
  by_cases hstat : pathExists s.node.disk s.node.config.filenamePrefix (env.fault .stat) = true
  · refine ⟨0, { s with attempts := s.attempts + 1 }, ?_, hidle, Or.inr ⟨_, bind_eq_of_error
      (require_of_neg (by simp [hstat]))⟩⟩
    simp [run_cons, saveStep, hidle, hstat]
  rw [bind_eq_of_ok (require_of_pos (by simpa using hstat))]
  -- the call goes through to the JSON file, and the JSON file to the YAML file
  obtain ⟨n₁, s₁, hrun₁, hend₁⟩ := run_file (s := { s with
    attempts := s.attempts + 1
    saving := some ⟨s.attempts, env, s.node.config.filenamePrefix, .create .json⟩ }) rfl
  have hcall : run (saveStep lib) s (.call env :: List.replicate n₁ .step) = some s₁ := by
    rw [run_cons, saveStep, hidle]
    dsimp only
    rw [if_neg (by simp [hbase, hstat])]
    exact hrun₁
  rcases hend₁ with ⟨e, herror, hsaving⟩ | ⟨hok, hsaving⟩
  · exact ⟨n₁, s₁, hcall, hsaving, Or.inr ⟨e, bind_eq_of_error herror⟩⟩
  · obtain ⟨n₂, s₂, hrun₂, hend₂⟩ := run_file hsaving
    refine ⟨n₁ + n₂, s₂, ?_, ?_⟩
    · rw [List.replicate_add, ← List.cons_append, run_append hcall]
      exact hrun₂
    · rw [bind_eq_of_ok hok]
      rcases hend₂ with ⟨e, herror, hnone⟩ | ⟨hok₂, hnone⟩
      · exact ⟨hnone, Or.inr ⟨e, herror⟩⟩
      · exact ⟨hnone, Or.inl hok₂⟩

end Alone

/-! ## Paths -/

theorem getLast?_path (base : String) (f : Format) :
    (f.path base).toList.getLast? = some (match f with | .json => 'n' | .yaml => 'l') := by
  cases f <;> simp [Format.path, Format.extension]

theorem getLast?_tmpPath (base : String) (f : Format) :
    (f.tmpPath base).toList.getLast? = some 'p' := by
  simp [Format.tmpPath]

/-- A file that is loaded is not a temporary one. -/
theorem path_ne_tmpPath (base base' : String) (f f' : Format) : f.path base ≠ f'.tmpPath base' := by
  intro h
  have hlast := getLast?_path base f
  rw [h, getLast?_tmpPath] at hlast
  cases f <;> exact absurd hlast (by decide)

/-- The path says which file of which configuration it is. -/
theorem path_inj {base base' : String} {f f' : Format} (h : f.path base = f'.path base') :
    base = base' ∧ f = f' := by
  have hf : f = f' := by
    have hlast := getLast?_path base f
    rw [h, getLast?_path] at hlast
    cases f <;> cases f' <;> first | rfl | exact absurd hlast (by decide)
  subst hf
  refine ⟨?_, rfl⟩
  have hlist := congrArg String.toList h
  simp only [Format.path, String.toList_append] at hlist
  exact String.toList_inj.mp (List.append_cancel_right hlist)

/-! ## What an operation does to the disk -/

section Effects

variable {β : Type} {node node' : Node β} {path : String} {fault : Option String}

theorem createFile_effect {r : EStateM.Result Failure (Node β) Unit}
    (h : (createFile path fault).run node = r) :
    r = .ok () (node.put path .torn) ∨ ∃ e, r = .error e node := by
  rw [← h]
  cases herror : createError node.disk path fault with
  | none => exact Or.inl (createFile_ok herror)
  | some e => exact Or.inr ⟨_, createFile_error herror⟩

/-- A dump that succeeds has written what the encoder returned. -/
theorem dump_ok {order : RangeOrder String (Option Zone)} {encoder : ConfigData → Except String β}
    (h : (dump path fault order encoder).run node = .ok () node') :
    ∃ document, encoder node'.config.toConfigData = .ok document ∧
      node'.disk = Function.update node.disk path (some (.doc document)) := by
  obtain ⟨_, node₁, htrim, h⟩ := run_bind_ok h
  obtain ⟨document, node₂, hencode, hwrite⟩ := run_bind_ok h
  have hdisk : node₁.disk = node.disk := by
    cases hfailure : (trimZones order node.config.zones).2 with
    | none =>
      rw [trimConfig_ok hfailure] at htrim
      rw [← (EStateM.Result.ok.inj htrim).2]
      rfl
    | some e =>
      rw [trimConfig_error hfailure] at htrim
      exact absurd htrim (by simp)
  cases henc : encoder node₁.config.toConfigData with
  | error e =>
    rw [encodeConfig_error henc] at hencode
    exact absurd hencode (by simp)
  | ok document' =>
    rw [encodeConfig_ok henc] at hencode
    obtain ⟨rfl, rfl⟩ := EStateM.Result.ok.inj hencode
    cases fault with
    | some e => exact absurd hwrite (by simp [EStateM.run, writeFile])
    | none =>
      rw [← (EStateM.Result.ok.inj hwrite).2]
      refine ⟨document', henc, ?_⟩
      rw [← hdisk]
      rfl

/-- A dump that fails has not completed the file. -/
theorem dump_error {order : RangeOrder String (Option Zone)}
    {encoder : ConfigData → Except String β} {e : Failure}
    (h : (dump path fault order encoder).run node = .error e node') : node'.disk = node.disk := by
  unfold dump at h
  cases hfailure : (trimZones order node.config.zones).2 with
  | some e' =>
    rw [bind_eq_of_error (trimConfig_error hfailure)] at h
    rw [← (EStateM.Result.error.inj h).2]
    rfl
  | none =>
    rw [bind_eq_of_ok (trimConfig_ok hfailure)] at h
    cases henc : encoder (node.trim order).config.toConfigData with
    | error e' =>
      rw [bind_eq_of_error (encodeConfig_error henc)] at h
      rw [← (EStateM.Result.error.inj h).2]
      rfl
    | ok document =>
      rw [bind_eq_of_ok (encodeConfig_ok henc)] at h
      cases fault with
      | none => exact absurd h (by simp [EStateM.run, writeFile])
      | some e' =>
        rw [← (EStateM.Result.error.inj h).2]
        rfl

theorem renameFile_effect {new : String} {r : EStateM.Result Failure (Node β) Unit}
    (h : (renameFile path new fault).run node = r) :
    r = .ok () { node with
      disk := Function.update (Function.update node.disk new (node.disk path)) path none } ∨
    ∃ e, r = .error e node := by
  rw [← h]
  simp only [EStateM.run, renameFile]
  cases renameError node.disk new fault with
  | none => exact Or.inl rfl
  | some e => exact Or.inr ⟨_, rfl⟩

end Effects

section Moves

variable {β : Type} {lib : Libraries β}

/-- What a step can do. -/
inductive SaveMove (s : SaveState β) : SaveState β → Prop
  /-- Nothing is under way any more. -/
  | stopped {s' : SaveState β} (hdisk : s'.node.disk = s.node.disk)
      (houtputs : s'.outputs = s.outputs) (hattempts : s.attempts ≤ s'.attempts)
      (hsaving : s'.saving = none) : SaveMove s s'
  | called {s' : SaveState β} {env : Env} {base : String} (hdisk : s'.node.disk = s.node.disk)
      (houtputs : s'.outputs = s.outputs) (hattempts : s'.attempts = s.attempts + 1)
      (hsaving : s'.saving = some ⟨s.attempts, env, base, .create .json⟩) : SaveMove s s'
  | edited {s' : SaveState β} (hdisk : s'.node.disk = s.node.disk)
      (houtputs : s'.outputs = s.outputs) (hattempts : s'.attempts = s.attempts)
      (hsaving : s'.saving = s.saving) : SaveMove s s'
  | created {s' : SaveState β} {a : Saving} {f : Format} (ha : s.saving = some a)
      (hop : a.op = .create f)
      (hdisk : s'.node.disk = Function.update s.node.disk (f.tmpPath a.base) (some .torn))
      (houtputs : s'.outputs = s.outputs) (hattempts : s'.attempts = s.attempts)
      (hsaving : s'.saving = some { a with op := .write f }) : SaveMove s s'
  | written {s' : SaveState β} {a : Saving} {f : Format} (document : β) (ha : s.saving = some a)
      (hop : a.op = .write f)
      (hdisk : s'.node.disk = Function.update s.node.disk (f.tmpPath a.base)
        (some (.doc ⟨some a.attempt, document⟩)))
      (houtputs : s'.outputs = s.outputs ++ [⟨a.attempt, a.base, f, document⟩])
      (hattempts : s'.attempts = s.attempts)
      (hsaving : s'.saving = some { a with op := .rename f }) : SaveMove s s'
  | renamed {s' : SaveState β} {a : Saving} {f : Format} (ha : s.saving = some a)
      (hop : a.op = .rename f)
      (hdisk : s'.node.disk = Function.update (Function.update s.node.disk (f.path a.base)
        (s.node.disk (f.tmpPath a.base))) (f.tmpPath a.base) none)
      (houtputs : s'.outputs = s.outputs) (hattempts : s'.attempts = s.attempts)
      (hsaving : s'.saving = (SaveOp.rename f).next.map fun op => { a with op := op }) :
      SaveMove s s'

theorem encode_stamped {f : Format} {attempt : ℕ} {d : ConfigData} {document : Stamped β}
    (h : f.encode (lib.stamped attempt) d = .ok document) :
    document.attempt = some attempt ∧ f.encode lib d = .ok document.document := by
  have hmap : (f.encode lib d).map (Stamped.mk (some attempt)) = .ok document := by
    cases f <;> exact h
  cases hencode : f.encode lib d with
  | error e =>
    rw [hencode] at hmap
    exact absurd hmap (by simp [Except.map])
  | ok document' =>
    rw [hencode] at hmap
    rw [← Except.ok.inj hmap]
    exact ⟨rfl, rfl⟩

theorem saveStep_move {s s' : SaveState β} {act : SaveAct} (h : saveStep lib s act = some s') :
    SaveMove s s' := by
  cases act with
  | call env =>
    rw [saveStep] at h
    split at h
    · exact absurd h (by simp)
    · dsimp only at h
      split_ifs at h
      · rw [← Option.some.inj h]
        exact .stopped rfl rfl (Nat.le_succ _) (by assumption)
      · rw [← Option.some.inj h]
        exact .called rfl rfl rfl rfl
  | cut =>
    rw [← Option.some.inj h]
    exact .stopped rfl rfl le_rfl rfl
  | edit c =>
    rw [← Option.some.inj h]
    exact .edited rfl rfl rfl rfl
  | step =>
    rw [saveStep] at h
    split at h
    · exact absurd h (by simp)
    · rename_i a ha
      cases hop : a.op with
      | create f =>
        rw [hop] at h
        rcases createFile_effect (rfl : (SaveOp.prog (lib.stamped a.attempt) a.env a.base
            (.create f)).run s.node = _) with hrun | ⟨e, hrun⟩
        · rw [hrun] at h
          rw [← Option.some.inj h]
          refine .created ha hop rfl ?_ rfl rfl
          simp [Saving.output, hop]
        · rw [hrun] at h
          rw [← Option.some.inj h]
          exact .stopped rfl rfl le_rfl rfl
      | write f =>
        rw [hop] at h
        cases hrun : (SaveOp.prog (lib.stamped a.attempt) a.env a.base (.write f)).run s.node with
        | error e node =>
          rw [hrun] at h
          rw [← Option.some.inj h]
          exact .stopped (dump_error hrun) rfl le_rfl rfl
        | ok _ node =>
          rw [hrun] at h
          rw [← Option.some.inj h]
          obtain ⟨document, hencode, hdisk⟩ := dump_ok hrun
          obtain ⟨hattempt, hencode⟩ := encode_stamped hencode
          refine .written document.document ha hop ?_ ?_ rfl rfl
          · show node.disk = _
            rw [hdisk, ← hattempt]
          · simp [Saving.output, hop, hencode]
      | rename f =>
        rw [hop] at h
        rcases renameFile_effect (rfl : (SaveOp.prog (lib.stamped a.attempt) a.env a.base
            (.rename f)).run s.node = _) with hrun | ⟨e, hrun⟩
        · rw [hrun] at h
          rw [← Option.some.inj h]
          refine .renamed ha hop rfl ?_ rfl rfl
          simp [Saving.output, hop]
        · rw [hrun] at h
          rw [← Option.some.inj h]
          exact .stopped rfl rfl le_rfl rfl

end Moves

/-! ## Crash safety -/

section Safety

variable {β : Type} {original : String → Option (File β)}

/-- The file is the original one, or what an encoder has returned in one attempt. -/
def Intact (original : String → Option (File β)) (s : SaveState β) (base : String) (f : Format) :
    Prop :=
  s.node.disk (f.path base) = (original (f.path base)).map File.original ∨
    ∃ k document, s.node.disk (f.path base) = some (.doc ⟨some k, document⟩) ∧
      ⟨k, base, f, document⟩ ∈ s.outputs

/-- What the operations that are still to come rest on. -/
structure Saving.Ready (a : Saving) (s : SaveState β) : Prop where
  latest : a.attempt + 1 = s.attempts
  /-- The file that is about to be renamed is complete. -/
  complete : ∀ f, a.op = .rename f → ∃ document,
    s.node.disk (f.tmpPath a.base) = some (.doc ⟨some a.attempt, document⟩) ∧
      ⟨a.attempt, a.base, f, document⟩ ∈ s.outputs
  /-- The JSON file of the attempt is in place before its YAML file is begun. -/
  jsonInPlace : a.op = .create .yaml ∨ a.op = .write .yaml ∨ a.op = .rename .yaml →
    ∃ document, s.node.disk (Format.json.path a.base) = some (.doc ⟨some a.attempt, document⟩)

/-- **The invariant of saving.** -/
structure CrashSafe (original : String → Option (File β)) (s : SaveState β) : Prop where
  intact : ∀ base f, Intact original s base f
  ordered : ∀ base k document,
    s.node.disk (Format.yaml.path base) = some (.doc ⟨some k, document⟩) →
      ∃ k' document', s.node.disk (Format.json.path base) = some (.doc ⟨some k', document'⟩) ∧
        k ≤ k'
  older : ∀ o ∈ s.outputs, o.attempt < s.attempts
  ready : ∀ a, s.saving = some a → a.Ready s

/-- An original file has no attempt. -/
theorem original_ne {file : Option (File β)} {k : ℕ} {document : β} :
    file.map File.original ≠ some (.doc ⟨some k, document⟩) := by
  intro h
  obtain ⟨file', -, hfile⟩ := Option.map_eq_some_iff.mp h
  cases file' with
  | dir | torn => exact absurd hfile (by simp [File.original])
  | doc document' => exact absurd hfile (by simp [File.original])

theorem crashSafe_start (c : Config) : CrashSafe original (.start c original) where
  intact base f := Or.inl rfl
  ordered base k document h := absurd h original_ne
  older o h := absurd h List.not_mem_nil
  ready a h := absurd h (by simp [SaveState.start])

variable {s s' : SaveState β}

/-- A file with a number is the output of that attempt. -/
theorem CrashSafe.output_mem (hs : CrashSafe original s) {base : String} {f : Format} {k : ℕ}
    {document : β} (h : s.node.disk (f.path base) = some (.doc ⟨some k, document⟩)) :
    ⟨k, base, f, document⟩ ∈ s.outputs := by
  rcases hs.intact base f with horiginal | ⟨k', document', hdisk, hmem⟩
  · exact absurd (horiginal.symm.trans h) original_ne
  · rw [hdisk, Option.some.injEq, File.doc.injEq, Stamped.mk.injEq, Option.some.injEq] at h
    rw [← h.1, ← h.2]
    exact hmem

/-- A step that leaves the two files alone. -/
theorem CrashSafe.frame (hs : CrashSafe original s)
    (hdisk : ∀ base f, s'.node.disk (Format.path base f) = s.node.disk (f.path base))
    (houtputs : s.outputs ⊆ s'.outputs) (holder : ∀ o ∈ s'.outputs, o.attempt < s'.attempts)
    (hready : ∀ a, s'.saving = some a → a.Ready s') : CrashSafe original s' where
  intact base f := by
    unfold Intact
    rw [hdisk]
    rcases hs.intact base f with horiginal | ⟨k, document, hfile, hmem⟩
    · exact Or.inl horiginal
    · exact Or.inr ⟨k, document, hfile, houtputs hmem⟩
  ordered base k document h := by
    rw [hdisk] at h ⊢
    exact hs.ordered base k document h
  older := holder
  ready := hready

/-- **A rename puts a complete file in place.** -/
theorem CrashSafe.rename (hs : CrashSafe original s) {a : Saving} {f : Format}
    (ha : s.saving = some a) (hop : a.op = .rename f)
    (hdisk : s'.node.disk = Function.update (Function.update s.node.disk (f.path a.base)
      (s.node.disk (f.tmpPath a.base))) (f.tmpPath a.base) none)
    (houtputs : s'.outputs = s.outputs) (hattempts : s'.attempts = s.attempts)
    (hsaving : s'.saving = (SaveOp.rename f).next.map fun op => { a with op := op }) :
    CrashSafe original s' := by
  have hready := hs.ready a ha
  obtain ⟨document, htmp, hmem⟩ := hready.complete f hop
  have hother : ∀ base f', (base, f') ≠ (a.base, f) →
      s'.node.disk (Format.path base f') = s.node.disk (f'.path base) := by
    intro base f' hne
    rw [hdisk, Function.update_of_ne (path_ne_tmpPath _ _ _ _), Function.update_of_ne]
    intro hpath
    obtain ⟨rfl, rfl⟩ := path_inj hpath
    exact hne rfl
  have hplace : s'.node.disk (f.path a.base) = some (.doc ⟨some a.attempt, document⟩) := by
    rw [hdisk, Function.update_of_ne (path_ne_tmpPath _ _ _ _), Function.update_self, htmp]
  refine ⟨fun base f' => ?_, fun base k document' hyaml => ?_, ?_, fun a' ha' => ?_⟩
  · unfold Intact
    rw [houtputs]
    by_cases heq : (base, f') = (a.base, f)
    · obtain ⟨rfl, rfl⟩ := Prod.mk.inj heq
      exact Or.inr ⟨a.attempt, document, hplace, hmem⟩
    · rw [hother base f' heq]
      exact hs.intact base f'
  · by_cases hbase : base = a.base
    · subst hbase
      cases f with
      | json =>
        -- the YAML file is of an earlier attempt, or of this one
        rw [hother _ .yaml (by simp)] at hyaml
        have holder := hs.older _ (hs.output_mem hyaml)
        have hlatest := hready.latest
        exact ⟨a.attempt, document, hplace, by dsimp only at holder; omega⟩
      | yaml =>
        obtain ⟨jsonDocument, hjson⟩ := hready.jsonInPlace (Or.inr (Or.inr hop))
        rw [hplace, Option.some.injEq, File.doc.injEq, Stamped.mk.injEq, Option.some.injEq] at hyaml
        rw [hother _ .json (by simp)]
        exact ⟨a.attempt, jsonDocument, hjson, hyaml.1.symm.le⟩
    · rw [hother _ _ (by simp [hbase])] at hyaml ⊢
      exact hs.ordered base k document' hyaml
  · rw [houtputs, hattempts]
    exact hs.older
  · rw [hsaving] at ha'
    cases f with
    | yaml => exact absurd ha' (by simp [SaveOp.next])
    | json =>
      obtain rfl := Option.some.inj ha'
      refine ⟨hattempts ▸ hready.latest, fun f' hf' => absurd hf' (by simp), fun _ => ?_⟩
      exact ⟨document, hplace⟩

/-- A change of a temporary file leaves the two files alone. -/
theorem path_of_update_tmpPath {base : String} {f : Format} {file : Option (File (Stamped β))}
    (h : s'.node.disk = Function.update s.node.disk (f.tmpPath base) file) (base' : String)
    (f' : Format) : s'.node.disk (f'.path base') = s.node.disk (f'.path base') := by
  rw [h, Function.update_of_ne (path_ne_tmpPath _ _ _ _)]

/-- **Every step keeps the files safe.** -/
theorem CrashSafe.step (hs : CrashSafe original s) (h : SaveMove s s') :
    CrashSafe original s' := by
  cases h with
  | stopped hdisk houtputs hattempts hsaving =>
    refine hs.frame (fun base f => by rw [hdisk]) (by rw [houtputs]; exact List.Subset.refl _)
      (fun o ho => ?_) fun a ha => absurd ha (by simp [hsaving])
    exact (hs.older o (houtputs ▸ ho)).trans_le hattempts
  | called hdisk houtputs hattempts hsaving =>
    refine hs.frame (fun base f => by rw [hdisk]) (by rw [houtputs]; exact List.Subset.refl _)
      (fun o ho => ?_) fun a ha => ?_
    · rw [hattempts]
      exact (hs.older o (houtputs ▸ ho)).trans (Nat.lt_succ_self _)
    · rw [hsaving] at ha
      obtain rfl := Option.some.inj ha
      exact ⟨hattempts.symm, fun f hf => absurd hf (by simp), fun h => absurd h (by simp)⟩
  | edited hdisk houtputs hattempts hsaving =>
    refine hs.frame (fun base f => by rw [hdisk]) (by rw [houtputs]; exact List.Subset.refl _)
      (fun o ho => ?_) fun a ha => ?_
    · rw [hattempts]
      exact hs.older o (houtputs ▸ ho)
    · obtain ⟨hlatest, hcomplete, hjson⟩ := hs.ready a (hsaving ▸ ha)
      refine ⟨hattempts ▸ hlatest, ?_, ?_⟩
      · rw [hdisk, houtputs]
        exact hcomplete
      · rw [hdisk]
        exact hjson
  | @created a f ha hop hdisk houtputs hattempts hsaving =>
    have hsame := path_of_update_tmpPath hdisk
    obtain ⟨hlatest, -, hjson⟩ := hs.ready a ha
    refine hs.frame hsame (by rw [houtputs]; exact List.Subset.refl _) (fun o ho => ?_)
      fun a' ha' => ?_
    · rw [hattempts]
      exact hs.older o (houtputs ▸ ho)
    · rw [hsaving] at ha'
      obtain rfl := Option.some.inj ha'
      refine ⟨hattempts ▸ hlatest, fun f' hf' => absurd hf' (by simp), fun hyaml => ?_⟩
      rw [hsame]
      refine hjson (Or.inl ?_)
      rw [hop]
      simpa using hyaml
  | @written a f document ha hop hdisk houtputs hattempts hsaving =>
    have hsame := path_of_update_tmpPath hdisk
    obtain ⟨hlatest, -, hjson⟩ := hs.ready a ha
    refine hs.frame hsame (by rw [houtputs]; exact List.subset_append_left _ _) (fun o ho => ?_)
      fun a' ha' => ?_
    · rw [houtputs] at ho
      rw [hattempts]
      rcases List.mem_append.mp ho with ho | ho
      · exact hs.older o ho
      · rw [List.mem_singleton.mp ho]
        exact hlatest ▸ Nat.lt_succ_self _
    · rw [hsaving] at ha'
      obtain rfl := Option.some.inj ha'
      refine ⟨hattempts ▸ hlatest, fun f' hf' => ?_, fun hyaml => ?_⟩
      · obtain rfl := SaveOp.rename.inj hf'
        refine ⟨document, ?_, ?_⟩
        · rw [hdisk]
          exact Function.update_self ..
        · rw [houtputs]
          exact List.mem_append_right _ (List.mem_singleton.mpr rfl)
      · rw [hsame]
        refine hjson (Or.inr (Or.inl ?_))
        rw [hop]
        simpa using hyaml
  | renamed ha hop hdisk houtputs hattempts hsaving =>
    exact hs.rename ha hop hdisk houtputs hattempts hsaving

end Safety

/-- **Save is crash safe.**  Whatever saves are called, stop with an error or are cut off, and
however the configuration changes meanwhile, each of the two files of a configuration is at every
moment the original one or the complete output of one attempt to save it; and when the YAML file
is of some attempt, the JSON file is of that attempt or of a later one. -/
theorem save_crash_safe {β : Type} {lib : Libraries β} {c : Config}
    {original : String → Option (File β)} {acts : List SaveAct} {s : SaveState β}
    (hrun : run (saveStep lib) (.start c original) acts = some s) (base : String) :
    (∀ f, Intact original s base f) ∧
    ∀ k document, s.node.disk (Format.yaml.path base) = some (.doc ⟨some k, document⟩) →
      ∃ k' document', s.node.disk (Format.json.path base) = some (.doc ⟨some k', document'⟩) ∧
        k ≤ k' := by
  have hs : CrashSafe original s :=
    run_invariant (P := CrashSafe original) (fun _ _ _ ht h => ht.step (saveStep_move h))
      (crashSafe_start c) hrun
  exact ⟨hs.intact base, hs.ordered base⟩

/-- The attempt that wrote a file. -/
def attemptAt {β : Type} (disk : String → Option (File (Stamped β))) (path : String) : Option ℕ :=
  match disk path with
  | some (.doc document) => document.attempt
  | _ => none

/-- A save completes; the next one is cut off when its JSON file is in place. -/
def cutSave : List SaveAct :=
  [.call calmEnv, .step, .step, .step, .step, .step, .step,
    .call calmEnv, .step, .step, .step, .step, .cut]

theorem save_crash_safe_cut :
    ∃ s, run (saveStep plainLibraries) (.start onePeerNode.config fun _ => none) cutSave = some s ∧
      attemptAt s.node.disk "border.json" = some 1 ∧
      attemptAt s.node.disk "border.yaml" = some 0 ∧
      ∀ f, Intact (fun _ => none) s "border" f := by
  have hany : (run (saveStep plainLibraries) (.start onePeerNode.config fun _ => none)
      cutSave).any (fun s => attemptAt s.node.disk "border.json" = some 1 ∧
      attemptAt s.node.disk "border.yaml" = some 0) = true := by
    decide +kernel
  obtain ⟨s, hrun, hs⟩ := Option.any_eq_true _ _ |>.mp hany
  obtain ⟨hjson, hyaml⟩ := of_decide_eq_true hs
  exact ⟨s, hrun, hjson, hyaml, (save_crash_safe hrun "border").1⟩

end Border

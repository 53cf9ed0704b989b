/-
# How far a save gets

`Config.Save` changes three things one after the other: it trims the zones in memory,
puts the JSON file in place, and puts the YAML file in place, trimming once more in
between.  A `Stage` says how far it has got, `installedAt` what stands in memory and on
disk then, and `saveStage` computes the stage from the state before the call and the
environment.

`save_spec` ties the program to these: it ends where `saveStage` says, in the state
`installedAt` says.
-/
import Border.Disk

namespace Border

open GoMap

variable {β : Type}

/-! ## Stages -/

/-- How far a save has got, with the documents it has put in place. -/
inductive Stage (β : Type)
  | unsaved
  | trimmed
  | jsonInPlace (json : β)
  | yamlTrimmed (json : β)
  | saved (json yaml : β)

/-- What an update is about: the saved fields in memory and the two files. -/
@[ext]
structure Installed (β : Type) where
  memory : ConfigData
  json : Option (File β)
  yaml : Option (File β)

/-- What stands in memory and on disk. -/
def Node.installed (node : Node β) : Installed β :=
  ⟨node.config.toConfigData, node.disk node.jsonPath, node.disk node.yamlPath⟩

/-- The saved fields after `trimZones`, complete or not. -/
def ConfigData.trim (d : ConfigData) (order : RangeOrder String (Option Zone)) : ConfigData :=
  { d with zones := (trimZones order d.zones).1 }

/-- What a save that has got to a stage has installed. -/
def installedAt (env : Env) (before : Installed β) : Stage β → Installed β
  | .unsaved => before
  | .trimmed => { before with memory := before.memory.trim (env.order .trimJSON) }
  | .jsonInPlace json =>
    { before with
      memory := before.memory.trim (env.order .trimJSON)
      json := some (.doc json) }
  | .yamlTrimmed json =>
    { before with
      memory := (before.memory.trim (env.order .trimJSON)).trim (env.order .trimYAML)
      json := some (.doc json) }
  | .saved json yaml =>
    { memory := (before.memory.trim (env.order .trimJSON)).trim (env.order .trimYAML)
      json := some (.doc json)
      yaml := some (.doc yaml) }

/-- The document `SaveJSON` or `SaveYAML` writes, unless it fails. -/
def dumped (order : RangeOrder String (Option Zone)) (encoder : ConfigData → Except String β)
    (writeFault : Option String) (d : ConfigData) : Option β :=
  match (trimZones order d.zones).2, encoder (d.trim order), writeFault with
  | none, .ok document, none => some document
  | _, _, _ => none

theorem dumped_eq_some {order : RangeOrder String (Option Zone)}
    {encoder : ConfigData → Except String β} {writeFault : Option String} {d : ConfigData}
    {document : β} (h : dumped order encoder writeFault d = some document) :
    (trimZones order d.zones).2 = none ∧ encoder (d.trim order) = .ok document ∧
      writeFault = none := by
  cases htrim : (trimZones order d.zones).2 with
  | some e => exact absurd h (by simp [dumped, htrim])
  | none =>
    cases henc : encoder (d.trim order) with
    | error e => exact absurd h (by simp [dumped, htrim, henc])
    | ok document' =>
      cases writeFault with
      | some e => exact absurd h (by simp [dumped, htrim, henc])
      | none =>
        simp only [dumped, htrim, henc, Option.some.injEq] at h
        rw [h]
        exact ⟨rfl, rfl, rfl⟩

/-- How far the steps for one file get. -/
inductive FileStage (β : Type)
  | untouched
  | trimmed
  | inPlace (document : β)

/-- How far they get from a disk and a configuration. -/
def fileStage (disk : String → Option (File β)) (path : String)
    (createFault writeFault renameFault : Option String)
    (order : RangeOrder String (Option Zone)) (encoder : ConfigData → Except String β)
    (d : ConfigData) : FileStage β :=
  if (createError disk (path ++ ".tmp") createFault).isSome then .untouched
  else
    match dumped order encoder writeFault d with
    | none => .trimmed
    | some document =>
      if (renameError disk path renameFault).isSome then .trimmed else .inPlace document

/-- The stage at which a save fails, or the documents it saves. -/
def saveStage (lib : Libraries β) (env : Env) (node : Node β) : Except (Stage β) (β × β) :=
  if node.config.filenamePrefix = "" ∨
      pathExists node.disk node.config.filenamePrefix (env.fault .stat) = true then
    .error .unsaved
  else
    match fileStage node.disk node.jsonPath (env.fault .createJSON) (env.fault .writeJSON)
        (env.fault .renameJSON) (env.order .trimJSON) lib.encodeJSON node.config.toConfigData with
    | .untouched => .error .unsaved
    | .trimmed => .error .trimmed
    | .inPlace json =>
      match fileStage node.disk node.yamlPath (env.fault .createYAML) (env.fault .writeYAML)
          (env.fault .renameYAML) (env.order .trimYAML) lib.encodeYAML
          (node.config.toConfigData.trim (env.order .trimJSON)) with
      | .untouched => .error (.jsonInPlace json)
      | .trimmed => .error (.yamlTrimmed json)
      | .inPlace yaml => .ok (json, yaml)

/-! ## One file -/

/-- A node whose zones have been trimmed. -/
def Node.trim (node : Node β) (order : RangeOrder String (Option Zone)) : Node β :=
  { node with config := { node.config with toConfigData := node.config.toConfigData.trim order } }

section ToDisk

variable {path : String} {createFault writeFault : Option String}
  {order : RangeOrder String (Option Zone)} {encoder : ConfigData → Except String β}
  {node : Node β}

theorem createFile_ok (h : createError node.disk path createFault = none) :
    (createFile path createFault).run node
      = .ok () (node.put path .torn) := by
  simp only [EStateM.run, createFile, h]

theorem createFile_error {e : String} (h : createError node.disk path createFault = some e) :
    (createFile path createFault).run node = .error (.error e) node := by
  simp only [EStateM.run, createFile, h]

theorem trimConfig_ok (h : (trimZones order node.config.zones).2 = none) :
    (trimConfig order).run node = .ok () (node.trim order) := by
  simp only [EStateM.run, trimConfig, h]
  rfl

theorem trimConfig_error {e : Failure} (h : (trimZones order node.config.zones).2 = some e) :
    (trimConfig order).run node = .error e (node.trim order) := by
  simp only [EStateM.run, trimConfig, h]
  rfl

theorem encodeConfig_ok {document : β} (h : encoder node.config.toConfigData = .ok document) :
    (encodeConfig encoder).run node = .ok document node := by
  simp only [EStateM.run, encodeConfig, h]

theorem encodeConfig_error {e : String} (h : encoder node.config.toConfigData = .error e) :
    (encodeConfig encoder).run node = .error (.error e) node := by
  simp only [EStateM.run, encodeConfig, h]

theorem toDisk_create_error (h : (createError node.disk path createFault).isSome) :
    ∃ e, (toDisk path createFault writeFault order encoder).run node = .error e node := by
  obtain ⟨e, he⟩ := Option.isSome_iff_exists.mp h
  exact ⟨_, wrapError_of_error (bind_eq_of_error (createFile_error he))⟩

/-- A dump that fails leaves the zones trimmed and a file that is not complete. -/
theorem toDisk_dump_error (hcreate : createError node.disk path createFault = none)
    (h : dumped order encoder writeFault node.config.toConfigData = none) :
    ∃ e, (toDisk path createFault writeFault order encoder).run node
      = .error e ((node.put path .torn).trim order) := by
  suffices hdump : ∃ e, (do
      createFile path createFault
      trimConfig order
      let document ← encodeConfig encoder
      writeFile path document writeFault : Prog β Unit).run node
      = .error e ((node.put path .torn).trim order) by
    obtain ⟨e, he⟩ := hdump
    exact ⟨_, wrapError_of_error he⟩
  rw [bind_eq_of_ok (createFile_ok hcreate)]
  unfold dumped at h
  rw [show node.config = (node.put path .torn).config from rfl] at h
  generalize node.put path .torn = created at h ⊢
  cases htrim : (trimZones order created.config.zones).2 with
  | some e => exact ⟨e, bind_eq_of_error (trimConfig_error htrim)⟩
  | none =>
    rw [bind_eq_of_ok (trimConfig_ok htrim)]
    cases henc : encoder (created.config.toConfigData.trim order) with
    | error e => exact ⟨.error e, bind_eq_of_error (encodeConfig_error henc)⟩
    | ok document =>
      rw [bind_eq_of_ok (encodeConfig_ok henc)]
      cases hwrite : writeFault with
      | some e => exact ⟨.error e, rfl⟩
      | none =>
        rw [htrim, henc, hwrite] at h
        exact absurd h (by simp)

/-- A dump that succeeds leaves the zones trimmed and the document in the file. -/
theorem toDisk_ok {document : β} (hcreate : createError node.disk path createFault = none)
    (h : dumped order encoder writeFault node.config.toConfigData = some document) :
    (toDisk path createFault writeFault order encoder).run node
      = .ok () ((node.trim order).put path (.doc document)) := by
  obtain ⟨htrim, henc, rfl⟩ := dumped_eq_some h
  have htrim' : (trimZones order (node.put path .torn).config.zones).2 = none := htrim
  have henc' : encoder ((node.put path .torn).trim order).config.toConfigData = .ok document :=
    henc
  apply wrapError_of_ok
  rw [bind_eq_of_ok (createFile_ok hcreate), bind_eq_of_ok (trimConfig_ok htrim'),
    bind_eq_of_ok (encodeConfig_ok henc')]
  show EStateM.Result.ok () (((node.put path .torn).trim order).put path (.doc document)) = _
  simp only [Node.put, Node.trim, Function.update_idem]

end ToDisk

section SaveFile

variable {path : String} {createFault writeFault renameFault : Option String}
  {order : RangeOrder String (Option Zone)} {encoder : ConfigData → Except String β}
  {node : Node β}

theorem renameFile_ok (old : String) {new : String} (h : renameError node.disk new renameFault = none) :
    (renameFile old new renameFault).run node
      = .ok () { node with
          disk := Function.update (Function.update node.disk new (node.disk old)) old none } := by
  simp only [EStateM.run, renameFile, h]

theorem renameFile_error (old : String) {new : String}
    (h : (renameError node.disk new renameFault).isSome) :
    ∃ e, (renameFile old new renameFault).run node = .error e node := by
  obtain ⟨e, he⟩ := Option.isSome_iff_exists.mp h
  refine ⟨.error e, ?_⟩
  simp only [EStateM.run, renameFile, he]

theorem createError_congr {disk disk' : String → Option (File β)}
    (h : disk' path = disk path) : createError disk' path createFault
      = createError disk path createFault := by
  simp only [createError, h]

theorem renameError_congr {disk disk' : String → Option (File β)}
    (h : disk' path = disk path) : renameError disk' path renameFault
      = renameError disk path renameFault := by
  simp only [renameError, h]

/-- Two texts appended to one are different when they are. -/
theorem append_ne (base : String) {a b : String} (h : a ≠ b) : base ++ a ≠ base ++ b := by
  intro heq
  apply h
  have hlist := congrArg String.toList heq
  rw [String.toList_append, String.toList_append] at hlist
  exact String.toList_inj.mp (List.append_cancel_left hlist)

theorem tmp_ne (path : String) : path ++ ".tmp" ≠ path := by
  intro heq
  have hlen := congrArg String.length heq
  simp at hlen

/-- **One file.**  The steps for a file end where `fileStage` says.  They trim the zones,
and touch no other path than the file and its temporary one. -/
theorem saveFile_spec (path : String) (createFault writeFault renameFault : Option String)
    (order : RangeOrder String (Option Zone)) (encoder : ConfigData → Except String β)
    (node : Node β) :
    match fileStage node.disk path createFault writeFault renameFault order encoder
      node.config.toConfigData with
    | .untouched =>
      ∃ e, (saveFile path createFault writeFault renameFault order encoder).run node
        = .error e node
    | .trimmed =>
      ∃ e node', (saveFile path createFault writeFault renameFault order encoder).run node
        = .error e node' ∧ node'.config = (node.trim order).config ∧
        ∀ p, p ≠ path ++ ".tmp" → node'.disk p = node.disk p
    | .inPlace document =>
      ∃ node', (saveFile path createFault writeFault renameFault order encoder).run node
        = .ok () node' ∧ node'.config = (node.trim order).config ∧
        node'.disk path = some (.doc document) ∧
        ∀ p, p ≠ path ++ ".tmp" → p ≠ path → node'.disk p = node.disk p := by
  unfold fileStage
  by_cases hcreate : (createError node.disk (path ++ ".tmp") createFault).isSome
  · rw [if_pos hcreate]
    obtain ⟨e, he⟩ := toDisk_create_error hcreate
    exact ⟨e, bind_eq_of_error he⟩
  rw [if_neg hcreate]
  have hcreate' := Option.not_isSome_iff_eq_none.mp hcreate
  cases hdump : dumped order encoder writeFault node.config.toConfigData with
  | none =>
    obtain ⟨e, he⟩ := toDisk_dump_error hcreate' hdump
    exact ⟨e, _, bind_eq_of_error he, rfl, fun p hp => Function.update_of_ne hp _ _⟩
  | some document =>
    have hdisk := toDisk_ok hcreate' hdump
    have hsame : ((node.trim order).put (path ++ ".tmp") (.doc document)).disk path
        = node.disk path := Function.update_of_ne (tmp_ne path).symm _ _
    dsimp only
    -- the rename looks at its target only, which the temporary file is not
    rw [← renameError_congr hsame]
    by_cases hrename : (renameError ((node.trim order).put (path ++ ".tmp") (.doc document)).disk
        path renameFault).isSome
    · rw [if_pos hrename]
      obtain ⟨e, he⟩ := renameFile_error (path ++ ".tmp") hrename
      exact ⟨_, _, (bind_eq_of_ok hdisk).trans (wrapError_of_error he), rfl,
        fun p hp => Function.update_of_ne hp _ _⟩
    · rw [if_neg hrename]
      have hok := renameFile_ok (path ++ ".tmp") (Option.not_isSome_iff_eq_none.mp hrename)
      refine ⟨_, (bind_eq_of_ok hdisk).trans (wrapError_of_ok hok), rfl, ?_, fun p hp hp' => ?_⟩
      · dsimp only
        rw [Function.update_of_ne (tmp_ne path).symm, Function.update_self]
        exact Function.update_self _ _ _
      · dsimp only
        rw [Function.update_of_ne hp, Function.update_of_ne hp']
        exact Function.update_of_ne hp _ _

end SaveFile

/-! ## The whole save -/

/-- A node that has got to a stage of a save: apart from temporary files, only what is
installed has changed. -/
structure Reached (env : Env) (before after : Node β) (stage : Stage β) : Prop where
  config : after.config =
    { before.config with toConfigData := (installedAt env before.installed stage).memory }
  json : after.disk before.jsonPath = (installedAt env before.installed stage).json
  yaml : after.disk before.yamlPath = (installedAt env before.installed stage).yaml

theorem Reached.installed {env : Env} {before after : Node β} {stage : Stage β}
    (h : Reached env before after stage) :
    after.installed = installedAt env before.installed stage := by
  have hbase : after.config.filenamePrefix = before.config.filenamePrefix := by rw [h.config]
  have hjson : after.jsonPath = before.jsonPath := by rw [Node.jsonPath, hbase, Node.jsonPath]
  have hyaml : after.yamlPath = before.yamlPath := by rw [Node.yamlPath, hbase, Node.yamlPath]
  apply Installed.ext
  · show after.config.toConfigData = _
    rw [h.config]
  · show after.disk after.jsonPath = _
    rw [hjson, h.json]
  · show after.disk after.yamlPath = _
    rw [hyaml, h.yaml]

/-- Neither file of a prefix nor its temporary one is a file of the other kind. -/
theorem json_ne_yaml (node : Node β) :
    node.jsonPath ≠ node.yamlPath ∧ node.jsonPath ≠ node.yamlPath ++ ".tmp" ∧
      node.yamlPath ≠ node.jsonPath ++ ".tmp" ∧
      node.yamlPath ++ ".tmp" ≠ node.jsonPath ++ ".tmp" ∧
      node.yamlPath ++ ".tmp" ≠ node.jsonPath := by
  unfold Node.jsonPath Node.yamlPath
  simp only [String.append_assoc]
  exact ⟨append_ne _ (by decide), append_ne _ (by decide), append_ne _ (by decide),
    append_ne _ (by decide), append_ne _ (by decide)⟩

theorem fileStage_congr {disk disk' : String → Option (File β)} {path : String}
    {createFault writeFault renameFault : Option String}
    {order : RangeOrder String (Option Zone)} {encoder : ConfigData → Except String β}
    {d : ConfigData} (htmp : disk' (path ++ ".tmp") = disk (path ++ ".tmp"))
    (hpath : disk' path = disk path) :
    fileStage disk' path createFault writeFault renameFault order encoder d
      = fileStage disk path createFault writeFault renameFault order encoder d := by
  rw [fileStage, createError_congr htmp, renameError_congr hpath]
  rfl

/-- The part of `Config.Save` that follows the reading of the prefix. -/
theorem save_run (lib : Libraries β) (env : Env) (node : Node β) :
    (save lib env).run node = (do
      require (node.config.filenamePrefix ≠ "") "invalid filename prefix"
      require (pathExists node.disk node.config.filenamePrefix (env.fault .stat) = false)
        ("Filename prefix " ++ quoted node.config.filenamePrefix
          ++ " exists or is a directory, should not be")
      saveFile node.jsonPath (env.fault .createJSON) (env.fault .writeJSON)
        (env.fault .renameJSON) (env.order .trimJSON) lib.encodeJSON
      saveFile node.yamlPath (env.fault .createYAML) (env.fault .writeYAML)
        (env.fault .renameYAML) (env.order .trimYAML) lib.encodeYAML : Prog β Unit).run node :=
  rfl

/-- **A save ends where `saveStage` says.** -/
theorem save_spec (lib : Libraries β) (env : Env) (node : Node β) :
    match saveStage lib env node with
    | .error stage =>
      ∃ e node', (save lib env).run node = .error e node' ∧ Reached env node node' stage
    | .ok (json, yaml) =>
      ∃ node', (save lib env).run node = .ok () node' ∧
        Reached env node node' (.saved json yaml) := by
  rw [saveStage, save_run]
  by_cases hbase : node.config.filenamePrefix = ""
  · rw [if_pos (Or.inl hbase)]
    exact ⟨_, node, bind_eq_of_error (require_of_neg (not_not.mpr hbase)), rfl, rfl, rfl⟩
  rw [bind_eq_of_ok (require_of_pos hbase)]
  by_cases hexists : pathExists node.disk node.config.filenamePrefix (env.fault .stat) = true
  · rw [if_pos (Or.inr hexists)]
    have hneg : ¬ pathExists node.disk node.config.filenamePrefix (env.fault .stat) = false := by
      rw [hexists]
      simp
    exact ⟨_, node, bind_eq_of_error (require_of_neg hneg), rfl, rfl, rfl⟩
  rw [bind_eq_of_ok (require_of_pos (Bool.eq_false_iff.mpr hexists)),
    if_neg (not_or.mpr ⟨hbase, hexists⟩)]
  obtain ⟨hne, hne1, hne2, hne3, hne4⟩ := json_ne_yaml node
  have hjson := saveFile_spec node.jsonPath (env.fault .createJSON) (env.fault .writeJSON)
    (env.fault .renameJSON) (env.order .trimJSON) lib.encodeJSON node
  revert hjson
  cases fileStage node.disk node.jsonPath (env.fault .createJSON) (env.fault .writeJSON)
    (env.fault .renameJSON) (env.order .trimJSON) lib.encodeJSON node.config.toConfigData with
  | untouched =>
    rintro ⟨e, he⟩
    exact ⟨e, node, bind_eq_of_error he, rfl, rfl, rfl⟩
  | trimmed =>
    rintro ⟨e, node', he, hconfig, hdisk⟩
    exact ⟨e, node', bind_eq_of_error he, hconfig, hdisk _ (tmp_ne _).symm, hdisk _ hne2⟩
  | inPlace json =>
    rintro ⟨node1, h1, hconfig1, hjson1, hdisk1⟩
    rw [bind_eq_of_ok h1]
    have hyaml := saveFile_spec node.yamlPath (env.fault .createYAML) (env.fault .writeYAML)
      (env.fault .renameYAML) (env.order .trimYAML) lib.encodeYAML node1
    -- saving the JSON file has touched neither the YAML file nor its temporary one
    rw [fileStage_congr (hdisk1 _ hne3 hne4) (hdisk1 _ hne2 hne.symm), hconfig1] at hyaml
    revert hyaml
    show (match fileStage node.disk node.yamlPath (env.fault .createYAML) (env.fault .writeYAML)
      (env.fault .renameYAML) (env.order .trimYAML) lib.encodeYAML
      (node.config.toConfigData.trim (env.order .trimJSON)) with
      | .untouched => _ | .trimmed => _ | .inPlace yaml => _) → _
    cases fileStage node.disk node.yamlPath (env.fault .createYAML) (env.fault .writeYAML)
      (env.fault .renameYAML) (env.order .trimYAML) lib.encodeYAML
      (node.config.toConfigData.trim (env.order .trimJSON)) with
    | untouched =>
      rintro ⟨e, he⟩
      exact ⟨e, node1, he, hconfig1, hjson1, hdisk1 _ hne2 hne.symm⟩
    | trimmed =>
      rintro ⟨e, node', he, hconfig, hdisk⟩
      refine ⟨e, node', he, ?_, ?_, ?_⟩
      · rw [hconfig, Node.trim, hconfig1]
        rfl
      · exact (hdisk _ hne1).trans hjson1
      · exact (hdisk _ (tmp_ne _).symm).trans (hdisk1 _ hne2 hne.symm)
    | inPlace yaml =>
      rintro ⟨node', he, hconfig, hyaml', hdisk⟩
      refine ⟨node', he, ?_, ?_, hyaml'⟩
      · rw [hconfig, Node.trim, hconfig1]
        rfl
      · exact (hdisk _ hne1 hne).trans hjson1

/-- The inversion of a successful save. -/
theorem save_ok {lib : Libraries β} {env : Env} {node node' : Node β}
    (h : (save lib env).run node = .ok () node') :
    ∃ json yaml, saveStage lib env node = .ok (json, yaml) ∧
      Reached env node node' (.saved json yaml) := by
  have hspec := save_spec lib env node
  cases hstage : saveStage lib env node with
  | error stage =>
    rw [hstage] at hspec
    obtain ⟨e, node'', he, -⟩ := hspec
    rw [he] at h
    exact absurd h (by simp)
  | ok docs =>
    obtain ⟨json, yaml⟩ := docs
    rw [hstage] at hspec
    obtain ⟨node'', hok, hreached⟩ := hspec
    rw [hok] at h
    obtain rfl := (EStateM.Result.ok.inj h).2
    exact ⟨json, yaml, rfl, hreached⟩

/-- The document that is put in place encodes the trimmed configuration. -/
theorem fileStage_inPlace {disk : String → Option (File β)} {path : String}
    {createFault writeFault renameFault : Option String}
    {order : RangeOrder String (Option Zone)} {encoder : ConfigData → Except String β}
    {d : ConfigData} {document : β}
    (h : fileStage disk path createFault writeFault renameFault order encoder d
      = .inPlace document) :
    (trimZones order d.zones).2 = none ∧ encoder (d.trim order) = .ok document := by
  unfold fileStage at h
  split at h
  · exact absurd h (by simp)
  split at h
  · exact absurd h (by simp)
  next document' hdump =>
    split at h
    · exact absurd h (by simp)
    obtain rfl := FileStage.inPlace.inj h
    obtain ⟨htrim, henc, -⟩ := dumped_eq_some hdump
    exact ⟨htrim, henc⟩

/-- The stages of the two files of a successful save. -/
theorem saveStage_files {lib : Libraries β} {env : Env} {node : Node β} {json yaml : β}
    (h : saveStage lib env node = .ok (json, yaml)) :
    fileStage node.disk node.jsonPath (env.fault .createJSON) (env.fault .writeJSON)
        (env.fault .renameJSON) (env.order .trimJSON) lib.encodeJSON node.config.toConfigData
      = .inPlace json ∧
    fileStage node.disk node.yamlPath (env.fault .createYAML) (env.fault .writeYAML)
        (env.fault .renameYAML) (env.order .trimYAML) lib.encodeYAML
        (node.config.toConfigData.trim (env.order .trimJSON))
      = .inPlace yaml := by
  unfold saveStage at h
  split at h
  · exact absurd h (by simp)
  split at h
  · exact absurd h (by simp)
  · exact absurd h (by simp)
  next json' hjson =>
    split at h
    · exact absurd h (by simp)
    · exact absurd h (by simp)
    next yaml' hyaml =>
      obtain ⟨rfl, rfl⟩ := Prod.mk.inj (Except.ok.inj h)
      exact ⟨hjson, hyaml⟩

/-- The JSON document of a successful save encodes the configuration trimmed once. -/
theorem saveStage_ok {lib : Libraries β} {env : Env} {node : Node β} {json yaml : β}
    (h : saveStage lib env node = .ok (json, yaml)) :
    (trimZones (env.order .trimJSON) node.config.zones).2 = none ∧
      lib.encodeJSON (node.config.toConfigData.trim (env.order .trimJSON)) = .ok json :=
  fileStage_inPlace (saveStage_files h).1

/-- The YAML document of a successful save encodes the configuration trimmed twice. -/
theorem saveStage_yaml_ok {lib : Libraries β} {env : Env} {node : Node β} {json yaml : β}
    (h : saveStage lib env node = .ok (json, yaml)) :
    (trimZones (env.order .trimYAML)
        (node.config.toConfigData.trim (env.order .trimJSON)).zones).2 = none ∧
      lib.encodeYAML ((node.config.toConfigData.trim (env.order .trimJSON)).trim
        (env.order .trimYAML)) = .ok yaml :=
  fileStage_inPlace (saveStage_files h).2

end Border

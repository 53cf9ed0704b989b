/-
# Saving and loading the configuration

Model of `pkg/config/disk.go` and of `Config.Reload`.  `save` writes the configuration
as JSON and then as YAML, each into a temporary file that is renamed into place;
`reload` reads the JSON back, validates it and copies it over the configuration in
memory.

The programs run on a `Node`, the configuration in memory together with the disk, and
keep the state they have reached when they fail.  `Env` decides which file operations
fail and in what order the loops visit the zones.  `encoding/json`, `ghodss/yaml`,
`time.ParseDuration` and the hash function are the `Libraries`; what a document is is
left open.
-/
import Border.Literal

namespace Border

open GoJson GoMap

/-- What stands under a path. -/
inductive File (β : Type)
  | dir
  | doc (document : β)
  /-- A file whose writing has not been completed. -/
  | torn
  deriving DecidableEq

/-- The library functions that saving and loading rest on. -/
structure Libraries (β : Type) where
  encodeJSON : ConfigData → Except String β
  encodeYAML : ConfigData → Except String β
  decodeJSON : β → Except String ConfigData
  decodeYAML : β → Except String ConfigData
  parseDuration : String → Except String ℤ
  /-- The sum `hashchain.Chain.Add` appends for the bytes of a document. -/
  hash : β → String

/-- A configuration in memory and the disk it is saved to. -/
structure Node (β : Type) where
  config : Config
  disk : String → Option (File β)

/-- The file operations of a save and a load, in the order in which they happen. -/
inductive FileOp
  | stat
  | createJSON
  | writeJSON
  | renameJSON
  | createYAML
  | writeYAML
  | renameYAML
  | openFile
  | readFile
  deriving DecidableEq, Repr

/-- The loops over the zones. -/
inductive ZoneLoop
  | trimJSON
  | trimYAML
  | convert
  | decorate
  deriving DecidableEq, Repr

/-- What happens around one call: the error each file operation ends with, if any, and
the order of each loop. -/
structure Env where
  fault : FileOp → Option String
  order : ZoneLoop → RangeOrder String (Option Zone)

/-- A stateful call that can fail and keeps the state it has reached. -/
abbrev Prog (β α : Type) := EStateM Failure (Node β) α

section Prog

variable {β α γ : Type} {x : Prog β α} {f : α → Prog β γ} {node node' : Node β}

theorem bind_eq_of_ok {a : α} (h : x.run node = .ok a node') :
    (x >>= f).run node = (f a).run node' := by
  show EStateM.bind x f node = _
  rw [EStateM.bind, show x node = _ from h]
  rfl

theorem bind_eq_of_error {e : Failure} (h : x.run node = .error e node') :
    (x >>= f).run node = .error e node' := by
  show EStateM.bind x f node = _
  rw [EStateM.bind, show x node = _ from h]

/-- The inversion of a sequence that succeeds. -/
theorem run_bind_ok {c : γ} {node'' : Node β} (h : (x >>= f).run node = .ok c node'') :
    ∃ a node', x.run node = .ok a node' ∧ (f a).run node' = .ok c node'' := by
  cases hx : x.run node with
  | error e node' =>
    rw [bind_eq_of_error hx] at h
    exact absurd h (by simp)
  | ok a node' =>
    rw [bind_eq_of_ok hx] at h
    exact ⟨a, node', rfl, h⟩

/-- The call succeeds, and the state it leaves passes the test. -/
def runOkWith (test : Node β → Bool) : EStateM.Result Failure (Node β) α → Bool
  | .ok _ node' => test node'
  | .error _ _ => false

theorem runOkWith_eq_true {test : Node β → Bool} (h : runOkWith test (x.run node) = true) :
    ∃ a node', x.run node = .ok a node' ∧ test node' = true := by
  cases hx : x.run node with
  | error e node' =>
    rw [hx] at h
    exact absurd h (by simp [runOkWith])
  | ok a node' =>
    rw [hx] at h
    exact ⟨a, node', rfl, h⟩

/-- Put a text in front of the error of a call. -/
def wrapError (label : String) (x : Prog β α) : Prog β α := fun node =>
  match x.run node with
  | .ok a node' => .ok a node'
  | .error e node' => .error (e.wrap label) node'

theorem wrapError_of_ok {label : String} {a : α} (h : x.run node = .ok a node') :
    (wrapError label x).run node = .ok a node' := by
  show (match x.run node with | .ok a node' => _ | .error e node' => _) = _
  rw [h]

theorem wrapError_of_error {label : String} {e : Failure} (h : x.run node = .error e node') :
    (wrapError label x).run node = .error (e.wrap label) node' := by
  show (match x.run node with | .ok a node' => _ | .error e node' => _) = _
  rw [h]

theorem run_wrapError_ok {label : String} {a : α} (h : (wrapError label x).run node = .ok a node') :
    x.run node = .ok a node' := by
  cases hx : x.run node with
  | error e node'' =>
    rw [wrapError_of_error hx] at h
    exact absurd h (by simp)
  | ok b node'' =>
    rw [wrapError_of_ok hx] at h
    exact h

/-- The state a call ends in, whether it fails or not. -/
def finalNode : EStateM.Result Failure (Node β) α → Node β
  | .ok _ node => node
  | .error _ node => node

/-- Return an error unless the condition holds. -/
def require (cond : Prop) [Decidable cond] (msg : String) : Prog β Unit := fun node =>
  if cond then .ok () node else .error (.error msg) node

theorem require_of_pos {cond : Prop} [Decidable cond] {msg : String} (h : cond) :
    (require cond msg).run node = .ok () node := if_pos h

theorem require_of_neg {cond : Prop} [Decidable cond] {msg : String} (h : ¬ cond) :
    (require cond msg).run node = .error (.error msg) node := if_neg h

end Prog

/-! ## File operations -/

section Files

variable {β : Type}

/-- A node with a file under a path. -/
def Node.put (node : Node β) (path : String) (file : File β) : Node β :=
  { node with disk := Function.update node.disk path (some file) }

/-- The error of creating a file. -/
def createError (disk : String → Option (File β)) (path : String) (fault : Option String) :
    Option String :=
  match fault, disk path with
  | some e, _ => some e
  | none, some .dir => some ("open " ++ path ++ ": is a directory")
  | none, _ => none

/-- `os.Create`: an empty file, whatever stood there. -/
def createFile (path : String) (fault : Option String) : Prog β Unit := fun node =>
  match createError node.disk path fault with
  | some e => .error (.error e) node
  | none => .ok () (node.put path .torn)

/-- Write a whole document into a file just created. -/
def writeFile (path : String) (document : β) (fault : Option String) : Prog β Unit := fun node =>
  match fault with
  | some e => .error (.error e) node
  | none => .ok () (node.put path (.doc document))

/-- The error of renaming a file. -/
def renameError (disk : String → Option (File β)) (new : String) (fault : Option String) :
    Option String :=
  match fault, disk new with
  | some e, _ => some e
  | none, some .dir => some "file exists"
  | none, _ => none

/-- `os.Rename`, of a file. -/
def renameFile (old new : String) (fault : Option String) : Prog β Unit := fun node =>
  match renameError node.disk new fault with
  | some e => .error (.error e) node
  | none =>
    .ok () { node with
      disk := Function.update (Function.update node.disk new (node.disk old)) old none }

/-! ## Saving -/

/-- `trimZones` on the configuration in memory. -/
def trimConfig (order : RangeOrder String (Option Zone)) : Prog β Unit := fun node =>
  let r := trimZones order node.config.zones
  let node' := { node with config := { node.config with zones := r.1 } }
  match r.2 with
  | none => .ok () node'
  | some e => .error e node'

/-- Encode the configuration in memory. -/
def encodeConfig (encoder : ConfigData → Except String β) : Prog β β := fun node =>
  match encoder node.config.toConfigData with
  | .ok document => .ok document node
  | .error e => .error (.error e) node

/-- `ErrDump`, as the first of two joined errors. -/
def errDump : String := "while dumping configuration to disk\n"

/-- `ToDisk` with `SaveJSON` or `SaveYAML`: create the file, trim the zones, encode the
configuration and write it. -/
def toDisk (path : String) (createFault writeFault : Option String)
    (order : RangeOrder String (Option Zone)) (encoder : ConfigData → Except String β) :
    Prog β Unit :=
  wrapError errDump do
    createFile path createFault
    trimConfig order
    let document ← encodeConfig encoder
    writeFile path document writeFault

/-- The two steps for one of the files: dump the configuration into a temporary file, and
rename that into place. -/
def saveFile (path : String) (createFault writeFault renameFault : Option String)
    (order : RangeOrder String (Option Zone)) (encoder : ConfigData → Except String β) :
    Prog β Unit := do
  toDisk (path ++ ".tmp") createFault writeFault order encoder
  wrapError "Could not move configuration file into place: "
    (renameFile (path ++ ".tmp") path renameFault)

/-- Whether `os.Stat` finds something. -/
def pathExists (disk : String → Option (File β)) (path : String) (fault : Option String) : Bool :=
  (disk path).isSome && fault.isNone

def Node.jsonPath (node : Node β) : String := node.config.filenamePrefix ++ ".json"

def Node.yamlPath (node : Node β) : String := node.config.filenamePrefix ++ ".yaml"

/-- `Config.Save`. -/
def save (lib : Libraries β) (env : Env) : Prog β Unit := do
  let node ← get
  let base := node.config.filenamePrefix
  require (base ≠ "") "invalid filename prefix"
  require (pathExists node.disk base (env.fault .stat) = false)
    ("Filename prefix " ++ quoted base ++ " exists or is a directory, should not be")
  saveFile node.jsonPath (env.fault .createJSON) (env.fault .writeJSON) (env.fault .renameJSON)
    (env.order .trimJSON) lib.encodeJSON
  saveFile node.yamlPath (env.fault .createYAML) (env.fault .writeYAML) (env.fault .renameYAML)
    (env.order .trimYAML) lib.encodeYAML

/-! ## Loading -/

/-- `LoadJSON`: the configuration, and a chain of its own with the sum of the bytes. -/
def loadJSON (lib : Libraries β) (document : β) : Except String Config :=
  (lib.decodeJSON document).map fun data =>
    { Config.new [lib.hash document] with toConfigData := data }

/-- `LoadYAML`. -/
def loadYAML (lib : Libraries β) (document : β) : Except String Config :=
  (lib.decodeYAML document).map fun data => { Config.new [] with toConfigData := data }

/-- A file name without its extension: what stands before the last dot of its last
element. -/
def trimExt (filename : String) : String :=
  let reversed := filename.toList.reverse
  match reversed.dropWhile fun c => c ≠ '.' ∧ c ≠ '/' with
  | '.' :: rest => String.ofList rest.reverse
  | _ => filename

/-- `Config.postLoad`. -/
def postLoad (lib : Libraries β) (env : Env) (c : Config) (filename : String)
    (chain : List String) (reload : Bool) : Except Failure Config :=
  let c := { c with filenamePrefix := trimExt filename, chain := chain, reload := reload }
  if c.peers.elems = [] then .error (.error "You must specify at least one peer")
  else
    match convertLiterals lib.parseDuration (env.order .convert) c.zones with
    | .error e => .error e
    | .ok zones =>
      match decorateZones (env.order .decorate) zones with
      | (_, some e) => .error e
      | (zones', none) => .ok { c with zones := zones' }

/-- `ErrLoad`, as the first of two joined errors. -/
def errLoad : String := "while loading configuration from disk\n"

/-- `Config.FromDisk`, on what stands under the file name. -/
def fromDisk (lib : Libraries β) (env : Env) (c : Config) (filename : String)
    (loader : β → Except String Config) (file : Option (File β)) : Except Failure Config :=
  match env.fault .openFile, file with
  | some e, _ => .error (.error (errLoad ++ e))
  | none, none => .error (.error (errLoad ++ "open " ++ filename ++ ": no such file or directory"))
  | none, some .dir => .error (.error (errLoad ++ "read " ++ filename ++ ": is a directory"))
  | none, some .torn => .error (.error (errLoad ++ "unexpected EOF"))
  | none, some (.doc document) =>
    match env.fault .readFile with
    | some e => .error (.error (errLoad ++ e))
    | none =>
      match loader document with
      | .error e => .error (.error (errLoad ++ e))
      | .ok newConfig =>
        postLoad lib env ((Config.new c.chain).copyFrom newConfig) filename c.chain c.reload

/-- `Config.Reload`: the publisher and the chain stay, and a signal is sent.  The channel has room
for one signal; the send is taken not to block. -/
def reload (lib : Libraries β) (env : Env) : Prog β Unit := fun node =>
  let c := node.config
  match fromDisk lib env c node.jsonPath (loadJSON lib) (node.disk node.jsonPath) with
  | .error e => .error (e.wrap "While reloading configuration: ") node
  | .ok newConfig =>
    .ok () { node with
      config := { c.copyFrom newConfig with
        publisher := c.publisher, chain := c.chain, reload := true } }

/-! ## What a load that succeeds has done -/

section Loaded

variable {lib : Libraries β} {env : Env} {c loaded : Config} {filename : String}

/-- The inversion of `postLoad`. -/
theorem postLoad_ok {chain : List String} {signal : Bool}
    (h : postLoad lib env c filename chain signal = .ok loaded) :
    ∃ converted, convertLiterals lib.parseDuration (env.order .convert) c.zones = .ok converted ∧
      (decorateZones (env.order .decorate) converted).2 = none ∧
      loaded = { c with
        zones := (decorateZones (env.order .decorate) converted).1
        filenamePrefix := trimExt filename, chain := chain, reload := signal } := by
  unfold postLoad at h
  dsimp only at h
  split at h
  · exact absurd h (by simp)
  split at h
  · exact absurd h (by simp)
  next converted hconv =>
    cases hdec : decorateZones (env.order .decorate) converted with
    | mk zones failure =>
      rw [hdec] at h
      cases failure with
      | some e => exact absurd h (by simp)
      | none =>
        refine ⟨converted, hconv, by rw [hdec], ?_⟩
        rw [← Except.ok.inj h, hdec]

/-- The inversion of `FromDisk`: a document was read, decoded and completed. -/
theorem fromDisk_ok {loader : β → Except String Config} {file : Option (File β)}
    (h : fromDisk lib env c filename loader file = .ok loaded) :
    ∃ document newConfig, file = some (.doc document) ∧ loader document = .ok newConfig ∧
      postLoad lib env ((Config.new c.chain).copyFrom newConfig) filename c.chain c.reload
        = .ok loaded := by
  unfold fromDisk at h
  split at h
  · exact absurd h (by simp)
  · exact absurd h (by simp)
  · exact absurd h (by simp)
  · exact absurd h (by simp)
  next document _ =>
    split at h
    · exact absurd h (by simp)
    split at h
    · exact absurd h (by simp)
    next newConfig hloader => exact ⟨document, newConfig, rfl, hloader, h⟩

end Loaded

end Files

end Border

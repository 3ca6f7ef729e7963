import CallAtlas.Path
import CallAtlas.Toml.Reader
import CallAtlas.Toml.Written

/-!
# Settings

Where things are kept. Every setting may be missing; the cache directory and the
change log have places of their own then. Settings are read from a TOML text,
where other keys do not matter, and may be replaced by the environment.
-/

namespace CallAtlas

structure Settings where
  cacheDir : Option Path
  /-- Where intermediate files stay. Without it they are removed. -/
  workDir : Option Path
  snapshotDir : Option Path
  changesLog : Option Path
deriving DecidableEq, Repr, Inhabited

namespace Settings

def none : Settings :=
  ⟨.none, .none, .none, .none⟩

def defaultFile : Path :=
  ⟨"revgraph.toml"⟩

def cache (s : Settings) : Path :=
  s.cacheDir.getD ⟨".revgraph"⟩

/-- The change log that is used: without a setting it is in the cache. -/
def log (s : Settings) : Path :=
  s.changesLog.getD (s.cache.child "changes.jsonl")

/-! ## Texts -/

/-- Reads a setting, which has to be a string if it is there. -/
def read? (entries : Toml.Entries) (key : String) : Option (Option Path) :=
  match entries.lookup key with
  | .none => some .none
  | some (.text content) => some (some ⟨content⟩)
  | some _ => .none

def ofText? (text : String) : Option Settings := do
  let entries ← Toml.read text
  return ⟨← read? entries "cache_dir", ← read? entries "work_dir",
    ← read? entries "snapshot_dir", ← read? entries "changes_log"⟩

def line (key : String) (setting : Option Path) : String :=
  match setting with
  | some p => Toml.Written.entry key p.text
  | .none => ""

def text (s : Settings) : String :=
  line "cache_dir" s.cacheDir ++ line "work_dir" s.workDir ++
    line "snapshot_dir" s.snapshotDir ++ line "changes_log" s.changesLog

/-! ## Environment -/

abbrev Environment := List (String × String)

/-- What the environment says, or else a setting. An empty text says nothing. -/
def overriding (env : Environment) (name : String) (setting : Option Path) : Option Path :=
  match env.lookup name with
  | some value => if value.isEmpty then setting else some ⟨value⟩
  | .none => setting

def withEnvironment (s : Settings) (env : Environment) : Settings where
  cacheDir := overriding env "REVGRAPH_CACHE_DIR" s.cacheDir
  workDir := overriding env "REVGRAPH_WORK_DIR" s.workDir
  snapshotDir := overriding env "REVGRAPH_SNAPSHOT_DIR" s.snapshotDir
  changesLog := overriding env "REVGRAPH_CHANGES_LOG" s.changesLog

end Settings

end CallAtlas

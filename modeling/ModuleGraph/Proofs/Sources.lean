import ModuleGraph.Proofs.Failing
import ModuleGraph.Proofs.FileTree
import ModuleGraph.Proofs.Overlay

/-!
# What sources give

The values of a document are there, and so are those in its tables. Settings that load are those of
what each source gives while the files are as they are, for loading them only reads files.
-/

namespace ModuleGraph.Settings

open Value

variable {α β : Type} {t : FileTree} {directory : String}

/-! ### Documents -/

theorem ofToml_ne_absent (origin : Option String) (d : Toml) : ofToml origin d ≠ absent := by
  cases d <;> simp [ofToml]

theorem exists_of_mem_ofEntries {origin : Option String} {entries : List (String × Toml)}
    {e : String × Value} (he : e ∈ ofEntries origin entries) : ∃ d, e.2 = ofToml origin d := by
  induction entries with
  | nil => cases he
  | cons entry entries ih =>
    rw [ofEntries] at he
    rcases List.mem_cons.1 he with rfl | he
    · exact ⟨entry.2, rfl⟩
    · exact ih he

theorem present_ofToml (origin : Option String) (d : Toml) : Present (ofToml origin d) := by
  cases d with
  | table entries =>
    rw [ofToml]
    intro e he
    obtain ⟨d, hd⟩ := exists_of_mem_ofEntries he
    rw [hd]
    exact ofToml_ne_absent origin d
  | bool | int | float | text | array => simp [ofToml, Present]

theorem present_of_ofDocument {origin : Option String} {text : String} {F : Fields}
    (h : ofDocument origin text = .ok F) : ∀ e ∈ F, Present e.2 := by
  unfold ofDocument at h
  split at h
  · cases h
    intro e he
    obtain ⟨d, hd⟩ := exists_of_mem_ofEntries he
    rw [hd]
    exact present_ofToml origin d
  · cases h

/-! ### Files -/

/-- The program leaves the files as they are. -/
def OnlyReads (p : StateM FileTree α) : Prop := ∀ t, (p.run t).2 = t

theorem onlyReads_pure (a : α) : OnlyReads (pure a) := fun _ => rfl

theorem run_bind_of_onlyReads {p : StateM FileTree α} (hp : OnlyReads p) (f : α → StateM FileTree β)
    (t : FileTree) : (p >>= f).run t = (f (p.run t).1).run t := by
  have hrun : p.run t = ((p.run t).1, t) := Prod.ext rfl (hp t)
  rw [StateT.run_bind, hrun]
  rfl

theorem OnlyReads.bind {p : StateM FileTree α} {f : α → StateM FileTree β} (hp : OnlyReads p)
    (hf : ∀ a, OnlyReads (f a)) : OnlyReads (p >>= f) := by
  intro t
  rw [run_bind_of_onlyReads hp]
  exact hf _ t

theorem onlyReads_isFile (path : String) : OnlyReads (Files.isFile path) := fun _ => rfl

theorem onlyReads_isDirectory (path : String) : OnlyReads (Files.isDirectory path) := fun _ => rfl

theorem onlyReads_findFile (directory path : String) : OnlyReads (findFile directory path) := by
  refine (onlyReads_isFile _).bind fun a => ?_
  split
  · exact onlyReads_pure _
  · refine (onlyReads_isFile _).bind fun b => ?_
    split
    · exact onlyReads_pure _
    · exact onlyReads_pure _

/-- The fields that a source gives while the files are as in the tree. -/
def Source.fieldsIn (t : FileTree) (directory : String) (source : Source) : Except Fault Fields :=
  ((source.fields directory : StateM FileTree _).run t).1

theorem fieldsIn_file (t : FileTree) (directory path : String) (required : Bool) :
    Source.fieldsIn t directory (.file path required) =
      match ((findFile directory path : StateM FileTree _).run t).1 with
      | none => if required then .error (.missingFile path) else .ok []
      | some found => ofFile directory found required (t.read found) := by
  rw [Source.fieldsIn, Source.fields, run_bind_of_onlyReads (onlyReads_findFile directory path)]
  cases ((findFile directory path : StateM FileTree _).run t).1 <;> rfl

theorem fieldsIn_of_find {path : String} {required : Bool} {bytes : ByteArray}
    (h : t.find (FilePath.join directory path) = .ok (.file bytes)) :
    Source.fieldsIn t directory (.file path required) =
      ofDocument (some (FilePath.relativeTo directory (FilePath.join directory path)))
        (textOf bytes) := by
  have hkind : t.kind? (FilePath.join directory path) = some .file := by rw [FileTree.kind?, h]
  have hread : t.read (FilePath.join directory path) = .ok bytes := by rw [FileTree.read, h]
  have hfound : ((findFile directory path : StateM FileTree _).run t).1 =
      some (FilePath.join directory path) := by
    rw [findFile, run_bind_of_onlyReads (onlyReads_isFile _)]
    change ((if decide (t.kind? (FilePath.join directory path) = some .file) = true then _ else _ :
      StateM FileTree _).run t).1 = _
    rw [hkind]
    rfl
  rw [fieldsIn_file, hfound]
  dsimp only
  rw [hread, ofFile]

theorem onlyReads_fields (directory : String) (source : Source) :
    OnlyReads (source.fields directory) := by
  cases source with
  | document text => exact onlyReads_pure _
  | file path required =>
    refine (onlyReads_findFile directory path).bind fun found => ?_
    split <;> exact fun _ => rfl

theorem present_of_fieldsIn {source : Source} {F : Fields}
    (h : source.fieldsIn t directory = .ok F) : ∀ e ∈ F, Present e.2 := by
  cases source with
  | document text => exact present_of_ofDocument h
  | file path required =>
    have hempty : ∀ {fault : Fault},
        (if required then Except.error fault else .ok []) = .ok F → F = [] := by
      intro fault hF
      cases required with
      | true => cases hF
      | false => exact (Except.ok.inj hF).symm
    rw [fieldsIn_file] at h
    split at h
    · simp [hempty h]
    · unfold ofFile at h
      split at h
      · exact present_of_ofDocument h
      · simp [hempty h]

theorem onlyReads_fieldsOfEach (directory : String) (sources : List Source) :
    OnlyReads (Source.fieldsOfEach directory sources) := by
  induction sources with
  | nil => exact onlyReads_pure _
  | cons source sources ih =>
    refine (onlyReads_fields directory source).bind fun r => ?_
    cases r with
    | error e => exact onlyReads_pure _
    | ok first => exact ih.bind fun rest => onlyReads_pure _

theorem fieldsOfEach_eq (t : FileTree) (directory : String) (sources : List Source) :
    ((Source.fieldsOfEach directory sources : StateM FileTree _).run t).1 =
      sources.mapM (Source.fieldsIn t directory) := by
  induction sources with
  | nil => rfl
  | cons source sources ih =>
    rw [Source.fieldsOfEach, run_bind_of_onlyReads (onlyReads_fields directory source),
      ← Source.fieldsIn, List.mapM_cons, ← ih]
    cases source.fieldsIn t directory with
    | error e => rfl
    | ok first =>
      dsimp only
      rw [run_bind_of_onlyReads (onlyReads_fieldsOfEach directory sources)]
      cases ((Source.fieldsOfEach directory sources : StateM FileTree _).run t).1 <;> rfl

theorem present_of_given {sources : List Source} {given : List Fields}
    (h : sources.mapM (Source.fieldsIn t directory) = .ok given) :
    ∀ F ∈ given, ∀ e ∈ F, Present e.2 := by
  induction sources generalizing given with
  | nil =>
    obtain rfl := Except.ok.inj h
    exact fun _ hF => absurd hF List.not_mem_nil
  | cons source sources ih =>
    rw [List.mapM_cons] at h
    obtain ⟨first, hfirst, h⟩ := exists_of_bind_eq_ok h
    obtain ⟨rest, hrest, h⟩ := exists_of_bind_eq_ok h
    obtain rfl := Except.ok.inj h
    exact List.forall_mem_cons.2 ⟨present_of_fieldsIn hfirst, ih hrest⟩

theorem eq_of_validate {s s' : Settings}
    (h : ((validate s : StateM FileTree _).run t).1 = .ok s') : s = s' := by
  unfold validate at h
  split at h
  · cases h
  · split at h
    · exact Except.ok.inj h
    · rw [run_bind_of_onlyReads (onlyReads_isDirectory _)] at h
      split at h
      · cases h
      · exact Except.ok.inj h

theorem load_eq (t : FileTree) (directory : String) (environment : Environment) (l : Layers) :
    ((load directory environment l : StateM FileTree _).run t).1 = (do
      l.checkOverrides
      let given ← l.sources.mapM (Source.fieldsIn t directory)
      let s ← l.combine environment given
      ((validate s : StateM FileTree _).run t).1) := by
  rw [load, ← fieldsOfEach_eq]
  cases l.checkOverrides with
  | error e => rfl
  | ok =>
    dsimp only
    rw [run_bind_of_onlyReads (onlyReads_fieldsOfEach directory l.sources)]
    cases ((Source.fieldsOfEach directory l.sources : StateM FileTree _).run t).1 with
    | error e => rfl
    | ok given =>
      dsimp only
      change _ =
        (l.combine environment given).bind fun s => ((validate s : StateM FileTree _).run t).1
      cases l.combine environment given <;> rfl

/-- Settings that load are those of what the sources give. -/
theorem combine_of_load {l : Layers} {environment : Environment} {s : Settings}
    (h : ((load directory environment l : StateM FileTree _).run t).1 = .ok s) :
    ∃ given, l.sources.mapM (Source.fieldsIn t directory) = .ok given ∧
      l.combine environment given = .ok s := by
  rw [load_eq] at h
  obtain ⟨-, -, h⟩ := exists_of_bind_eq_ok h
  obtain ⟨given, hgiven, h⟩ := exists_of_bind_eq_ok h
  obtain ⟨s', hcombine, h⟩ := exists_of_bind_eq_ok h
  exact ⟨given, hgiven, eq_of_validate h ▸ hcombine⟩

end ModuleGraph.Settings

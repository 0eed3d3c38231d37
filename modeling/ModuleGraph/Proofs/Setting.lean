import ModuleGraph.Proofs.Sections
import ModuleGraph.Proofs.Sources

/-!
# Single settings

Each setting is read from the section of its group on its own. In a section that is a table it is
made from what is given for it, and it is the standard one where nothing is given.
-/

namespace ModuleGraph.Settings

open Value

variable {s : Settings} {root v : Value} {stack : List Fields}

inductive Setting
  | consoleLevel
  | fileLevel
  | logFile
  | catalogFile
  | discover
  deriving DecidableEq

namespace Setting

def Content : Setting → Type
  | consoleLevel | fileLevel => Log.Level
  | logFile => Option String
  | catalogFile => String
  | discover => Bool

def of : (x : Setting) → Settings → x.Content
  | consoleLevel, s => s.consoleLevel
  | fileLevel, s => s.fileLevel
  | logFile, s => s.logFile
  | catalogFile, s => s.catalogFile
  | discover, s => s.discover

def standard (x : Setting) : x.Content := x.of {}

def convert : (x : Setting) → Value → Except Misfit x.Content
  | consoleLevel, v | fileLevel, v => v.level
  | logFile, v => v.optionalText
  | catalogFile, v => v.text
  | discover, v => v.truth

def group : Setting → Group
  | consoleLevel | fileLevel | logFile => globalGroup
  | catalogFile | discover => catalogGroup

def index : Setting → Nat
  | consoleLevel | catalogFile => 0
  | fileLevel | discover => 1
  | logFile => 2

def name : Setting → String
  | consoleLevel => "output_log_level"
  | fileLevel => "file_log_level"
  | logFile => "log_file"
  | catalogFile => "file"
  | discover => "discover"

def path (x : Setting) : List Step := [.field x.group.name, .field x.name]

def read (x : Setting) : Value → Except Fault x.Content := x.group.read x.index x.convert x.standard

def all : List Setting := [consoleLevel, fileLevel, logFile, catalogFile, discover]

def key : Setting → String
  | consoleLevel => "global.output_log_level"
  | fileLevel => "global.file_log_level"
  | logFile => "global.log_file"
  | catalogFile => "catalog.file"
  | discover => "catalog.discover"

theorem path_key (x : Setting) : Key.path x.key = x.path := by
  cases x <;> decide +kernel

theorem path_inj {x y : Setting} : x.path = y.path ↔ x = y := by
  cases x <;> cases y <;> decide

theorem settings_index (x : Setting) : x.group.settings[x.index]? = some x.name := by
  cases x <;> rfl

/-- Settings are made from scalars only; an absent value counts as none where that is a value. -/
theorem scalar_of_convert {x : Setting} {c : x.Content} (h : x.convert v = .ok c) :
    (∃ o s, v = scalar o s) ∨ v = absent ∧ c = x.standard := by
  cases v with
  | scalar o s => exact .inl ⟨o, s, rfl⟩
  | absent =>
    refine .inr ⟨rfl, ?_⟩
    cases x with
    | logFile => exact (Except.ok.inj h).symm
    | consoleLevel | fileLevel | catalogFile | discover => cases h
  | list | table => cases x <;> cases h

end Setting

theorem Group.open?_eq_ok {g : Group} (h : g.open? (fieldsOf root) = .ok v) :
    v = (field g.name root).orEmpty := by
  unfold Group.open? at h
  unfold field
  cases hget : get? (fieldsOf root) g.name with
  | none =>
    rw [hget] at h
    exact (Except.ok.inj h).symm
  | some w =>
    rw [hget] at h
    cases w with
    | absent | scalar => cases h
    | list o items => exact (Except.ok.inj h).symm
    | table o fs =>
      dsimp only [Option.getD_some] at h
      cases hcheck : g.check (table o fs) with
      | error e => rw [hcheck] at h; cases h
      | ok => rw [hcheck] at h; exact (Except.ok.inj h).symm

theorem read_of_ofFields (h : ofFields (fieldsOf root) = .ok s) (x : Setting) :
    x.read (field x.group.name root).orEmpty = .ok (x.of s) := by
  obtain ⟨-, -, h⟩ := exists_of_bind_eq_ok h
  obtain ⟨global, hglobal, h⟩ := exists_of_bind_eq_ok h
  obtain ⟨consoleLevel, hconsole, h⟩ := exists_of_bind_eq_ok h
  obtain ⟨fileLevel, hfile, h⟩ := exists_of_bind_eq_ok h
  obtain ⟨logFile, hlog, h⟩ := exists_of_bind_eq_ok h
  obtain ⟨catalog, hcatalog, h⟩ := exists_of_bind_eq_ok h
  obtain ⟨catalogFile, hdefinitions, h⟩ := exists_of_bind_eq_ok h
  obtain ⟨discover, hdiscover, h⟩ := exists_of_bind_eq_ok h
  obtain rfl := Except.ok.inj h
  obtain rfl := Group.open?_eq_ok hglobal
  obtain rfl := Group.open?_eq_ok hcatalog
  cases x with
  | consoleLevel => exact hconsole
  | fileLevel => exact hfile
  | logFile => exact hlog
  | catalogFile => exact hdefinitions
  | discover => exact hdiscover

namespace Setting

variable {x : Setting} {c : x.Content} {w : Value}

theorem read_of_absent (o : Option String) {F : Fields} (h : get? F x.name = none) :
    x.read (table o F) = .ok x.standard := by
  simp [read, Group.read, Group.find?, settings_index, h]

theorem convert_of_find? {key : String} (h : x.read v = .ok c)
    (hfind : x.group.find? x.index v = some (key, w)) : x.convert w = .ok c := by
  rw [read, Group.read, hfind] at h
  exact eq_ok_of_mapError h

theorem convert_of_read_table {o : Option String} {F : Fields} (h : x.read (table o F) = .ok c)
    (hw : get? F x.name = some w) : x.convert w = .ok c := by
  have hfind : x.group.find? x.index (table o F) = some (s!"{x.group.name}.{x.name}", w) := by
    simp [Group.find?, settings_index, hw]
  exact convert_of_find? h hfind

/-- A setting that is given in its section is made from what is given. -/
theorem convert_of_read (h : x.read v.orEmpty = .ok c)
    (hgiven : (field x.name v).given? = some w) : x.convert w = .ok c := by
  cases v with
  | absent | scalar | list => cases hgiven
  | table o fs =>
    change ((get? fs x.name).getD absent).given? = some w at hgiven
    cases hget : get? fs x.name with
    | none => rw [hget] at hgiven; cases hgiven
    | some w' =>
      rw [hget, Option.getD_some] at hgiven
      exact eq_of_given hgiven ▸ convert_of_read_table h hget

/-- The setting is made from the item at its place, and it is the standard one if there is none. -/
def ReadFrom (x : Setting) (items : List Value) (c : x.Content) : Prop :=
  match items[x.index]? with
  | none => c = x.standard
  | some v => x.convert v = .ok c

theorem readFrom_of_read {o : Option String} {items : List Value} (h : x.read (list o items) = .ok c) :
    x.ReadFrom items c := by
  unfold ReadFrom
  split
  · rename_i hitem
    have hfind : x.group.find? x.index (list o items) = none := by simp [Group.find?, hitem]
    rw [read, Group.read, hfind] at h
    exact (Except.ok.inj h).symm
  · rename_i v hitem
    have hfind : x.group.find? x.index (list o items) = some (s!"{x.group.name}[{x.index}]", v) := by
      simp [Group.find?, hitem]
    exact convert_of_find? h hfind

/-- A setting that is not given in its section is the standard one, if the section is a table. -/
theorem standard_of_read (h : x.read v.orEmpty = .ok c) (hv : v.given? = none ∨ Filled v)
    (hgiven : (field x.name v).given? = none) : c = x.standard := by
  cases v with
  | absent => exact Except.ok.inj (h.symm.trans (read_of_absent none (F := []) rfl))
  | scalar | list => simp [given?, Filled] at hv
  | table o fs =>
    change ((get? fs x.name).getD absent).given? = none at hgiven
    cases hget : get? fs x.name with
    | none => exact Except.ok.inj (h.symm.trans (read_of_absent o hget))
    | some w =>
      rw [hget, Option.getD_some] at hgiven
      rcases scalar_of_convert (convert_of_read_table h hget) with ⟨o, s, rfl⟩ | ⟨-, hc⟩
      · cases hgiven
      · exact hc

end Setting

/-- Where the settings of a stack of sources come from. -/
theorem of_laid (hstack : ∀ F ∈ stack, ∀ e ∈ F, Present e.2)
    (h : ofFields (fieldsOf (laid stack)) = .ok s) (x : Setting) :
    (∀ v, (counted x.group.name stack).findSome? (gives? x.group.name x.name) = some v →
      x.convert v = .ok (x.of s)) ∧
    ((counted x.group.name stack).findSome? (gives? x.group.name x.name) = none →
      (∀ F, top? x.group.name stack = some F → Filled (sectionOf x.group.name F)) →
        x.of s = x.standard) ∧
    ∀ F, top? x.group.name stack = some F →
      (replaces x.group.name F = true → x.read (sectionOf x.group.name F) = .ok (x.of s)) ∧
      (amends x.group.name F = false → ¬ Filled (sectionOf x.group.name F) →
        replaces x.group.name F = false →
        ∃ o items, layEach x.group.name F (field x.group.name (laid (below x.group.name stack))) =
          list o items ∧ x.ReadFrom items (x.of s)) := by
  have hread := read_of_ofFields h x
  have hreading := reading_laid hstack x.group.name x.name
  obtain ⟨hnone, hsome⟩ := section_laid hstack x.group.name
  refine ⟨fun v hv => ?_, fun hv htop => ?_, fun F htop => ⟨fun hreplaces => ?_, ?_⟩⟩
  · rw [hv, reading] at hreading
    obtain ⟨w, hw, hscalar⟩ := Option.map_eq_some_iff.1 hreading
    have hconvert := Setting.convert_of_read hread hw
    rcases Setting.scalar_of_convert hconvert with ⟨o, c, rfl⟩ | ⟨rfl, -⟩
    · rwa [eq_of_scalar hscalar.symm]
    · rw [eq_of_given hw] at hw
      cases hw
  · refine Setting.standard_of_read hread ?_ ?_
    · cases hF : top? x.group.name stack with
      | none => exact .inl (hnone hF)
      | some F =>
        rw [hsome F hF]
        exact .inr (filled_layEach (present_of_top hstack hF) (htop F hF) _)
    · rw [hv, reading] at hreading
      exact Option.map_eq_none_iff.1 hreading
  · obtain ⟨w, hw⟩ := given_of_top htop
    rwa [hsome F htop, layEach_eq_of_replaces hreplaces, orEmpty_of_given hw] at hread
  · intro hamends hfilled hreplaces
    obtain ⟨o, items, hlist⟩ := list_layEach hamends hreplaces hfilled
      (field x.group.name (laid (below x.group.name stack)))
    rw [hsome F htop, hlist] at hread
    exact ⟨o, items, hlist, Setting.readFrom_of_read hread⟩

end ModuleGraph.Settings

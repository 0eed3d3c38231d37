import ModuleGraph.Proofs.JsonText
import ModuleGraph.Report

/-!
# Records told by reports

Reports as JSON documents are well-formed, whatever characters the texts in them hold, and a reader
of documents gets from them what they report: all of a module or a partition, and of a resolution or
a plan all but its warnings.
-/

namespace ModuleGraph

/-! ### Reading fields -/

namespace Json

def text? : Json → Option String
  | string s => some s
  | _ => none

def truth? : Json → Option Bool
  | bool b => some b
  | _ => none

/-- The texts in an array that holds nothing else. -/
def texts? : Json → Option (List String)
  | array items => items.mapM text?
  | _ => none

def names? : Json → Option (List String)
  | object fields => some (fields.map (·.1))
  | _ => none

def textAt? (j : Json) (name : String) : Option String := (j.field? name).bind text?

def truthAt? (j : Json) (name : String) : Option Bool := (j.field? name).bind truth?

def textsAt? (j : Json) (name : String) : Option (List String) := (j.field? name).bind texts?

@[simp] theorem texts?_strings (xs : List String) : (strings xs).texts? = some xs := by
  induction xs with
  | nil => rfl
  | cons x xs ih =>
    have hxs : (xs.map string).mapM text? = some xs := ih
    simp [strings, texts?, List.mapM_cons, text?, hxs]

end Json

/-- The flags that these labels stand for. -/
def Flags.ofLabels (labels : List String) : Flags where
  readOnly := labels.contains "ro"
  ownersOnly := labels.contains "owners"
  infrastructure := labels.contains "infra"

theorem Flags.ofLabels_labels (f : Flags) : ofLabels f.labels = f := by
  obtain ⟨r, o, i⟩ := f
  cases r <;> cases o <;> cases i <;> rfl

namespace Report

open Json (Numberless numberless_strings)

/-- The module that a document is about. -/
def moduleOf? (j : Json) : Option Module := do
  return {
    name := ← j.textAt? "name"
    paths := ← j.textsAt? "paths"
    dependsOn := ← j.textsAt? "depends_on"
    inheritedDepends := ← j.truthAt? "inherited_depends"
    flags := .ofLabels (← j.textsAt? "flags") }

/-- The module that a document is about, and the paths it lists under a name. -/
def listingOf? (name : String) (j : Json) : Option (String × List String) := do
  return (← j.textAt? "module", ← j.textsAt? name)

/-- The module of a raw plan, what is shown, and what is hidden. -/
def rawOf? (j : Json) : Option (String × List String × List String) := do
  return (← j.textAt? "module", ← j.textsAt? "include", ← j.textsAt? "exclude")

def partitionOf? (j : Json) : Option Path.Partition := do
  return { inside := ← j.textsAt? "inside", outside := ← j.textsAt? "outside" }

/-- A report is the text of an object with just these fields, and `read` gets `x` from them. -/
def Tells {α : Type} (report : String) (fields : List String) (read : Json → Option α) (x : α) : Prop :=
  ∃ j, Json.parse? report = some j ∧ j.names? = some fields ∧ read j = some x

theorem tells_of_numberless {α : Type} {j : Json} {fields : List String} {read : Json → Option α}
    {x : α} (h : Numberless j) (hnames : j.names? = some fields) (hread : read j = some x) :
    Tells j.pretty fields read x :=
  ⟨j, Json.parse?_pretty h, hnames, hread⟩

section Module

variable (m : Module)

theorem numberless_moduleJson : Numberless (moduleJson m) := by
  refine .object ?_
  simp [numberless_strings, Numberless.string, Numberless.bool]

theorem moduleOf?_moduleJson : moduleOf? (moduleJson m) = some m := by
  simp [moduleOf?, moduleJson, Json.textAt?, Json.textsAt?, Json.truthAt?, Json.field?, Json.text?,
    Json.truth?, Flags.ofLabels_labels]

theorem tells_module :
    Tells (module m .json) ["name", "paths", "depends_on", "inherited_depends", "flags"] moduleOf? m :=
  tells_of_numberless (numberless_moduleJson m) rfl (moduleOf?_moduleJson m)

end Module

/-- A document that names a module and lists texts under another name. -/
theorem tells_listing {owner name : String} {texts : List String} (h : name ≠ "module") :
    Tells (Json.object [("module", .string owner), (name, .strings texts)]).pretty ["module", name]
      (listingOf? name) (owner, texts) := by
  refine tells_of_numberless (.object ?_) rfl ?_
  · simp [numberless_strings, Numberless.string]
  · simp [listingOf?, Json.textAt?, Json.textsAt?, Json.field?, Json.text?, h]

theorem tells_raw (p : Plan) :
    Tells (plan p true .json) ["exclude", "include", "module"] rawOf?
      (p.module, p.shown, p.hidden) := by
  refine tells_of_numberless (.object ?_) rfl ?_
  · simp [numberless_strings, Numberless.string]
  · simp [rawOf?, rawJson, Json.textAt?, Json.textsAt?, Json.field?, Json.text?]

theorem tells_partition (p : Path.Partition) :
    Tells (partition p false .json) ["inside", "outside"] partitionOf? p := by
  refine tells_of_numberless (.object ?_) rfl ?_
  · simp [numberless_strings]
  · simp [partitionOf?, partitionJson, Json.textsAt?, Json.field?]

theorem parse?_outside (p : Path.Partition) :
    Json.parse? (partition p true .json) = some (.strings p.outside) :=
  Json.parse?_pretty (numberless_strings p.outside)

theorem eq_of_module_json {m n : Module} (h : module m .json = module n .json) : m = n := by
  have hjson := Json.eq_of_pretty (numberless_moduleJson m) (numberless_moduleJson n) h
  have hread := congrArg moduleOf? hjson
  rw [moduleOf?_moduleJson, moduleOf?_moduleJson] at hread
  exact Option.some.inj hread

/-- Every report of a record as a document is well-formed, has the fields of the record and no other,
and gives them back. So a module is known by its report. -/
theorem json_reports_give_records_back :
    (∀ m : Module, Tells (module m .json)
      ["name", "paths", "depends_on", "inherited_depends", "flags"] moduleOf? m) ∧
    (∀ r : Resolution, Tells (resolution r .json) ["module", "paths"] (listingOf? "paths")
      (r.module, r.paths)) ∧
    (∀ p : Plan, Tells (plan p false .json) ["module", "patterns"] (listingOf? "patterns")
        (p.module, p.sparsePatterns) ∧
      Tells (plan p true .json) ["exclude", "include", "module"] rawOf?
        (p.module, p.shown, p.hidden)) ∧
    (∀ p : Path.Partition, Tells (partition p false .json) ["inside", "outside"] partitionOf? p ∧
      ∃ j, Json.parse? (partition p true .json) = some j ∧ j.texts? = some p.outside) ∧
    ∀ m n : Module, module m .json = module n .json → m = n := by
  refine ⟨tells_module, ?_, ?_, ?_, ?_⟩
  · intro r
    exact tells_listing (by decide)
  · intro p
    exact ⟨tells_listing (by decide), tells_raw p⟩
  · intro p
    exact ⟨tells_partition p, _, parse?_outside p, Json.texts?_strings p.outside⟩
  · intro m n h
    exact eq_of_module_json h

end Report

end ModuleGraph

import ModuleGraph.Settings

/-!
# Values laid over each other

What becomes of one field while values are laid over a table. For the settings that are read from
it, the field either has what was given last or keeps what was there: what a change gives does not
depend on what it is laid over.
-/

namespace ModuleGraph.Settings

namespace Value

variable {name x : String} {v w old : Value} {f g : Value → Value} {fs : List (String × Value)}
  {path : List Step}

/-! ### Fields -/

/-- The value of a field, absent where there is no such field or no table. -/
def field (name : String) (v : Value) : Value := (get? (fieldsOf v) name).getD absent

theorem fieldsOf_alterField (name : String) (f : Value → Value) (v : Value) :
    fieldsOf (alterField name f v) = alter name f (fieldsOf v) := by
  cases v <;> rfl

theorem field_alterField_self (name : String) (f : Value → Value) (v : Value) :
    field name (alterField name f v) = f (field name v) := by
  rw [field, fieldsOf_alterField, get?_alter_self, Option.getD_some, field]

theorem field_alterField_of_ne (h : x ≠ name) (f : Value → Value) (v : Value) :
    field x (alterField name f v) = field x v := by
  rw [field, fieldsOf_alterField, get?_alter_of_ne h, field]

theorem field_orEmpty (x : String) (v : Value) : field x v.orEmpty = field x v := by
  cases v <;> rfl

/-! ### What is given -/

/-- The value, if it is one. A table without fields gives nothing: laid over a value it keeps it. -/
def given? : Value → Option Value
  | absent => none
  | table _ [] => none
  | v => some v

def scalar? : Value → Option (Option String × Scalar)
  | scalar o s => some (o, s)
  | _ => none

theorem eq_of_scalar {o : Option String} {s : Scalar} (h : scalar? v = some (o, s)) :
    v = scalar o s := by
  unfold scalar? at h
  split at h <;> cases h
  rfl

/-- The scalar that is given. No setting is made from another value, whatever is in it. -/
def reading (v : Value) : Option (Option (Option String × Scalar)) := v.given?.map scalar?

/-- A table with a field. -/
def Filled (v : Value) : Prop := ∃ o e fs, v = table o (e :: fs)

theorem Filled.given?_eq (h : Filled v) : v.given? = some v := by
  obtain ⟨o, e, fs, rfl⟩ := h
  rfl

theorem reading_of_filled (h : Filled v) : v.reading = some none := by
  obtain ⟨o, e, fs, rfl⟩ := h
  rfl

theorem eq_of_given (h : v.given? = some w) : v = w := by
  unfold given? at h
  split at h <;> cases h
  rfl

theorem given?_orEmpty (v : Value) : v.orEmpty.given? = v.given? := by
  cases v <;> rfl

theorem orEmpty_of_given (h : v.given? = some w) : v.orEmpty = v := by
  cases v with
  | absent => cases h
  | scalar | list | table => rfl

theorem reading_orEmpty (v : Value) : v.orEmpty.reading = v.reading := by
  rw [reading, given?_orEmpty, reading]

theorem filled_alterField (name : String) (f : Value → Value) (v : Value) :
    Filled (alterField name f v) := by
  have halter : ∀ fs : List (String × Value), ∃ e fs', alter name f fs = e :: fs' := by
    intro fs
    cases fs with
    | nil => exact ⟨_, _, rfl⟩
    | cons e fs =>
      unfold alter
      split <;> exact ⟨_, _, rfl⟩
  cases v with
  | table o fs =>
    obtain ⟨e, fs', h⟩ := halter fs
    exact ⟨o, e, fs', congrArg (table o) h⟩
  | absent | scalar | list =>
    obtain ⟨e, fs', h⟩ := halter []
    exact ⟨none, e, fs', congrArg (table none) h⟩

theorem Filled.mergeFields (h : Filled v) (fs : List (String × Value)) :
    Filled (mergeFields fs v) := by
  induction fs generalizing v with
  | nil => rwa [Value.mergeFields]
  | cons e fs ih =>
    rw [Value.mergeFields]
    exact ih (filled_alterField ..)

/-! ### Overlays -/

/-- The change gives a value whatever it is laid over, or keeps what it is laid over. -/
def Overlays (f : Value → Value) : Prop :=
  ∀ old, (f old).reading = (f absent).reading.or old.reading

theorem overlays_id : Overlays id := fun _ => rfl

theorem Overlays.comp (hg : Overlays g) (hf : Overlays f) : Overlays (g ∘ f) := by
  intro old
  rw [Function.comp_apply, Function.comp_apply, hg (f old), hf old, hg (f absent), Option.or_assoc]

theorem overlays_of_reading {r : Option (Option String × Scalar)}
    (h : ∀ old, (f old).reading = some r) : Overlays f := by
  intro old
  rw [h, h, Option.some_or]

theorem mergeInto_of_ne_table (h : ∀ o fs, w ≠ table o fs) (old : Value) : mergeInto w old = w := by
  rw [mergeInto]
  exact h

theorem overlays_mergeInto (hw : w ≠ absent) : Overlays (mergeInto w) := by
  cases w with
  | absent => exact absurd rfl hw
  | scalar o s =>
    refine overlays_of_reading (r := some (o, s)) fun old => ?_
    rw [mergeInto_of_ne_table (by simp)]
    rfl
  | list =>
    refine overlays_of_reading (r := none) fun old => ?_
    rw [mergeInto_of_ne_table (by simp)]
    rfl
  | table o fs =>
    cases fs with
    | nil =>
      intro old
      rw [mergeInto, mergeInto, mergeFields, mergeFields, reading_orEmpty, reading_orEmpty]
      rfl
    | cons e fs =>
      refine overlays_of_reading (r := none) fun old => ?_
      rw [mergeInto, mergeFields]
      exact reading_of_filled ((filled_alterField ..).mergeFields fs)

theorem overlays_update (hw : w ≠ absent) (path : List Step) :
    Overlays (update path (mergeInto w)) := by
  match path with
  | [] => exact overlays_mergeInto hw
  | .field _ :: _ =>
    exact overlays_of_reading (r := none) fun old => reading_of_filled (filled_alterField ..)
  | .item _ :: _ =>
    refine overlays_of_reading (r := none) fun old => ?_
    cases old <;> rfl

/-- The change lays something over a part of the value. -/
def LaysOver (part f : Value → Value) : Prop := ∃ h, Overlays h ∧ ∀ v, part (f v) = h (part v)

variable {part : Value → Value}

theorem laysOver_of_eq (h : ∀ v, part (f v) = part v) : LaysOver part f := ⟨id, overlays_id, h⟩

theorem LaysOver.comp (hg : LaysOver part g) (hf : LaysOver part f) : LaysOver part (g ∘ f) := by
  obtain ⟨k, hk, hgk⟩ := hg
  obtain ⟨h, hh, hfh⟩ := hf
  refine ⟨k ∘ h, hk.comp hh, fun v => ?_⟩
  rw [Function.comp_apply, hgk, hfh, Function.comp_apply]

theorem LaysOver.reading_eq (h : LaysOver part f) (hv : part v = absent) (old : Value) :
    (part (f old)).reading = (part (f v)).reading.or (part old).reading := by
  obtain ⟨k, hk, hf⟩ := h
  rw [hf, hf, hv, hk]

theorem laysOver_alterField (x name : String) (hf : Overlays f) :
    LaysOver (field x) (alterField name f) := by
  by_cases h : x = name
  · subst h
    exact ⟨f, hf, field_alterField_self x f⟩
  · exact laysOver_of_eq (field_alterField_of_ne h f)

theorem laysOver_mergeFields (x : String) (h : ∀ e ∈ fs, e.2 ≠ absent) :
    LaysOver (field x) (mergeFields fs) := by
  induction fs with
  | nil =>
    refine laysOver_of_eq fun v => ?_
    rw [mergeFields]
  | cons e fs ih =>
    obtain ⟨he, hfs⟩ := List.forall_mem_cons.1 h
    have hcomp := (ih hfs).comp (laysOver_alterField x e.1 (overlays_mergeInto he))
    refine hcomp.imp fun k hk => ⟨hk.1, fun v => ?_⟩
    rw [mergeFields]
    exact hk.2 v

/-! ### Changes of tables -/

/-- The value is there, and so are its fields. -/
def Present : Value → Prop
  | absent => False
  | table _ fs => ∀ e ∈ fs, e.2 ≠ absent
  | _ => True

theorem Present.ne_absent (h : Present w) : w ≠ absent := by
  rintro rfl
  exact h

/-- Laying the value at the path changes fields of a table. Otherwise it puts something in the place
of the table. -/
def changesFields : List Step → Value → Bool
  | [], table .. => true
  | [], _ => false
  | .field _ :: _, _ => true
  | .item _ :: _, _ => false

theorem laysOver_update (x : String) (hw : Present w) (h : changesFields path w = true) :
    LaysOver (field x) (update path (mergeInto w)) := by
  match path with
  | [] =>
    cases w with
    | absent | scalar | list => cases h
    | table o fs =>
      refine (laysOver_mergeFields x hw).imp fun k hk => ⟨hk.1, fun v => ?_⟩
      rw [update, mergeInto, hk.2, field_orEmpty]
  | .field name :: path => exact laysOver_alterField x name (overlays_update hw.ne_absent path)
  | .item _ :: _ => cases h

theorem field_update_of_replaces (x : String) (h : changesFields path w = false) (v : Value) :
    field x (update path (mergeInto w) v) = absent := by
  match path with
  | [] =>
    cases w with
    | absent | scalar | list =>
      rw [update, mergeInto_of_ne_table (by simp)]
      rfl
    | table => cases h
  | .field _ :: _ => cases h
  | .item _ :: _ => cases v <;> rfl

/-- No table and not absent. -/
def Solid : Value → Prop
  | scalar .. | list .. => True
  | absent | table .. => False

theorem given?_of_solid (h : Solid v) : v.given? = some v := by
  cases v with
  | absent | table => exact h.elim
  | scalar | list => rfl

theorem solid_update (hw : w ≠ absent) (h : changesFields path w = false) (v : Value) :
    Solid (update path (mergeInto w) v) := by
  match path with
  | [] =>
    rw [update]
    cases w with
    | absent => exact absurd rfl hw
    | table => cases h
    | scalar | list =>
      rw [mergeInto_of_ne_table (by simp)]
      trivial
  | .field _ :: _ => cases h
  | .item _ :: _ => cases v <;> trivial

/-- The change keeps what is there, but may put an empty table in the place of nothing. -/
def Keeps (f : Value → Value) : Prop := ∀ v, f v = v ∨ f v = v.orEmpty

theorem Keeps.given?_eq (hf : Keeps f) (v : Value) : (f v).given? = v.given? := by
  rcases hf v with h | h
  · rw [h]
  · rw [h, given?_orEmpty]

theorem Keeps.eq_of_given (hf : Keeps f) (h : v.given? = some w) : f v = v := by
  rcases hf v with hk | hk
  · exact hk
  · rw [hk, orEmpty_of_given h]

/-- The change leaves a table with a field. -/
def Fills (f : Value → Value) : Prop := ∀ v, Filled (f v)

theorem keeps_or_fills_comp (hg : Keeps g ∨ Fills g) (hf : Keeps f ∨ Fills f) :
    Keeps (g ∘ f) ∨ Fills (g ∘ f) := by
  rcases hg with hg | hg
  · rcases hf with hf | hf
    · refine .inl fun v => ?_
      have horEmpty : v.orEmpty.orEmpty = v.orEmpty := by cases v <;> rfl
      rcases hf v with h | h
      · rw [Function.comp_apply, h]
        exact hg v
      · rw [Function.comp_apply, h]
        rcases hg v.orEmpty with h' | h'
        · exact .inr h'
        · exact .inr (h'.trans horEmpty)
    · refine .inr fun v => ?_
      rw [Function.comp_apply, hg.eq_of_given (hf v).given?_eq]
      exact hf v
  · exact .inr fun v => hg (f v)

theorem keeps_or_fills_update (h : changesFields path w = true) :
    Keeps (update path (mergeInto w)) ∨ Fills (update path (mergeInto w)) := by
  match path with
  | [] =>
    match w with
    | absent | scalar .. | list .. => cases h
    | table o [] =>
      refine .inl fun v => .inr ?_
      rw [update, mergeInto, mergeFields]
    | table o (e :: fs) =>
      refine .inr fun v => ?_
      rw [update, mergeInto, mergeFields]
      exact (filled_alterField ..).mergeFields fs
  | .field _ :: _ => exact .inr fun v => filled_alterField ..
  | .item _ :: _ => cases h

end Value

end ModuleGraph.Settings

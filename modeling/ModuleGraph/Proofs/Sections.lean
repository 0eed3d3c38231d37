import ModuleGraph.Proofs.Overlay

/-!
# Sections

A section is the value of one group of settings. Sources are laid over each other from the lowest to
the highest, and each amends a section, setting by setting, or puts something in the place of its
table. What a source amends a section with does not depend on the sources below it; where it
replaces the table, the settings given below are lost.
-/

namespace ModuleGraph.Settings

open Value

variable {g : String} {e : String × Value} {F : Fields} {stack : List Fields} {v : Value}

/-! ### Entries -/

theorem Key.exists_path_eq (key : String) : ∃ name path, Key.path key = .field name :: path := by
  unfold Key.path
  cases h : Key.parse? key with
  | none => exact ⟨key, [], rfl⟩
  | some path =>
    unfold Key.parse? Key.readName? at h
    split at h
    · cases h
    · simp only [Option.bind_eq_bind, Option.bind_some, Option.bind_eq_some_iff] at h
      obtain ⟨steps, -, hpath⟩ := h
      cases hpath
      exact ⟨_, _, rfl⟩

/-- Lays an entry over the section that it belongs to. -/
def layIn (g : String) (v : Value) (e : String × Value) : Value :=
  match Key.path e.1 with
  | .field name :: path => if name = g then v.update path (mergeInto e.2) else v
  | _ => v

theorem field_lay (g : String) (root : Value) (e : String × Value) :
    field g (lay root e) = layIn g (field g root) e := by
  obtain ⟨name, path, h⟩ := Key.exists_path_eq e.1
  unfold lay layIn
  rw [h]
  by_cases hg : name = g
  · subst hg
    simp only [update, field_alterField_self, if_true]
  · simp only [update, field_alterField_of_ne (Ne.symm hg), hg, if_false]

/-- The entry puts nothing in the place of the section's table. -/
def amendsWith (g : String) (e : String × Value) : Bool :=
  match Key.path e.1 with
  | .field name :: path => name != g || changesFields path e.2
  | _ => true

/-- An entry is one of another section, or it is laid at a path of this one. -/
theorem layIn_cases (g : String) (e : String × Value) :
    ((∀ v, layIn g v e = v) ∧ amendsWith g e = true) ∨
      ∃ path, (∀ v, layIn g v e = v.update path (mergeInto e.2)) ∧
        amendsWith g e = changesFields path e.2 := by
  obtain ⟨name, path, h⟩ := Key.exists_path_eq e.1
  unfold layIn amendsWith
  rw [h]
  by_cases hg : name = g
  · exact .inr ⟨path, by simp [hg]⟩
  · exact .inl (by simp [hg])

theorem laysOver_layIn (x : String) (he : Present e.2) (h : amendsWith g e = true) :
    LaysOver (field x) (layIn g · e) := by
  rcases layIn_cases g e with ⟨hv, -⟩ | ⟨path, hv, hpath⟩
  · exact laysOver_of_eq fun v => by rw [hv]
  · rw [hpath] at h
    simpa only [hv] using laysOver_update x he h

theorem field_layIn_of_replaces (x : String) (h : amendsWith g e = false) (v : Value) :
    field x (layIn g v e) = absent := by
  rcases layIn_cases g e with ⟨-, ha⟩ | ⟨path, hv, hpath⟩
  · rw [ha] at h
    cases h
  · rw [hv]
    exact field_update_of_replaces x (hpath ▸ h) v

theorem solid_layIn_of_replaces (he : Present e.2) (h : amendsWith g e = false) (v : Value) :
    Solid (layIn g v e) := by
  rcases layIn_cases g e with ⟨-, ha⟩ | ⟨path, hv, hpath⟩
  · rw [ha] at h
    cases h
  · rw [hv]
    exact solid_update he.ne_absent (hpath ▸ h) v

theorem keeps_or_fills_layIn (h : amendsWith g e = true) :
    Keeps (layIn g · e) ∨ Fills (layIn g · e) := by
  rcases layIn_cases g e with ⟨hv, -⟩ | ⟨path, hv, hpath⟩
  · exact .inl fun v => .inl (hv v)
  · rw [hpath] at h
    simpa only [hv] using keeps_or_fills_update h

/-! ### Sources -/

def layEach (g : String) (F : Fields) (v : Value) : Value := F.foldl (layIn g) v

theorem layEach_cons (g : String) (e : String × Value) (F : Fields) :
    layEach g (e :: F) = layEach g F ∘ (layIn g · e) := rfl

theorem layEach_append (g : String) (A B : Fields) (v : Value) :
    layEach g (A ++ B) v = layEach g B (layEach g A v) := List.foldl_append

theorem field_foldl_lay (g : String) (F : Fields) (root : Value) :
    field g (F.foldl lay root) = layEach g F (field g root) := by
  induction F generalizing root with
  | nil => rfl
  | cons e F ih => rw [List.foldl_cons, ih, field_lay, layEach_cons, Function.comp_apply]

/-- The section that a source gives on its own. -/
def sectionOf (g : String) (F : Fields) : Value := field g (layAll F)

theorem sectionOf_eq (g : String) (F : Fields) : sectionOf g F = layEach g F absent :=
  field_foldl_lay g F .empty

/-- The source changes a section field by field, if at all. -/
def amends (g : String) (F : Fields) : Bool := F.all (amendsWith g)

theorem laysOver_layEach (x : String) (hF : ∀ e ∈ F, Present e.2) (h : amends g F = true) :
    LaysOver (field x) (layEach g F) := by
  induction F with
  | nil => exact laysOver_of_eq fun _ => rfl
  | cons e F ih =>
    obtain ⟨he, hF⟩ := List.forall_mem_cons.1 hF
    obtain ⟨ha, hamends⟩ := Bool.and_eq_true_iff.1 h
    exact (ih hF hamends).comp (laysOver_layIn x he ha)

theorem keeps_or_fills_layEach (h : amends g F = true) :
    Keeps (layEach g F) ∨ Fills (layEach g F) := by
  induction F with
  | nil => exact .inl fun v => .inl rfl
  | cons e F ih =>
    obtain ⟨ha, hamends⟩ := Bool.and_eq_true_iff.1 h
    exact keeps_or_fills_comp (ih hamends) (keeps_or_fills_layIn ha)

/-- Behind the last entry that replaces the table, the source amends what is there by then. -/
theorem exists_last_replacing (h : amends g F = false) :
    ∃ A e B, F = A ++ e :: B ∧ amendsWith g e = false ∧ amends g B = true := by
  induction F with
  | nil => cases h
  | cons e F ih =>
    cases hF : amends g F with
    | false =>
      obtain ⟨A, e', B, rfl, he, hB⟩ := ih hF
      exact ⟨e :: A, e', B, rfl, he, hB⟩
    | true =>
      refine ⟨[], e, F, rfl, ?_, hF⟩
      rw [amends, List.all_cons] at h
      rw [amends] at hF
      simpa [hF] using h

theorem layEach_of_replaces (hF : ∀ e ∈ F, Present e.2) (h : amends g F = false) :
    ∃ B, (∀ e ∈ B, Present e.2) ∧ amends g B = true ∧
      ∀ v, ∃ w, Solid w ∧ (∀ x, field x w = absent) ∧ layEach g F v = layEach g B w := by
  obtain ⟨A, e, B, rfl, he, hB⟩ := exists_last_replacing h
  obtain ⟨-, hF⟩ := List.forall_mem_append.1 hF
  obtain ⟨hpresent, hF⟩ := List.forall_mem_cons.1 hF
  refine ⟨B, hF, hB, fun v => ⟨layIn g (layEach g A v) e, ?_, ?_, ?_⟩⟩
  · exact solid_layIn_of_replaces hpresent he _
  · exact fun x => field_layIn_of_replaces x he _
  · rw [layEach_append, layEach_cons, Function.comp_apply]

/-- What a source that replaces the table leaves of a setting does not depend on what was there. -/
theorem field_layEach_of_replaces (hF : ∀ e ∈ F, Present e.2) (h : amends g F = false) (x : String)
    (v : Value) : (field x (layEach g F v)).reading = (field x (sectionOf g F)).reading := by
  obtain ⟨B, hB, hamends, heach⟩ := layEach_of_replaces hF h
  obtain ⟨w, -, hw, hv⟩ := heach v
  obtain ⟨w', -, hw', habsent⟩ := heach absent
  obtain ⟨k, -, hk⟩ := laysOver_layEach x hB hamends
  rw [sectionOf_eq, hv, habsent, hk, hk, hw, hw']

theorem keeps_of_given?_eq_none (hF : ∀ e ∈ F, Present e.2) (h : (sectionOf g F).given? = none) :
    amends g F = true ∧ Keeps (layEach g F) := by
  rw [sectionOf_eq] at h
  have hnone : ∀ w, (layEach g F absent).given? ≠ some w := by simp [h]
  cases hamends : amends g F with
  | true =>
    rcases keeps_or_fills_layEach hamends with hkeeps | hfills
    · exact ⟨rfl, hkeeps⟩
    · exact absurd (hfills absent).given?_eq (hnone _)
  | false =>
    obtain ⟨B, -, hB, heach⟩ := layEach_of_replaces hF hamends
    obtain ⟨w, hw, -, habsent⟩ := heach absent
    rw [habsent] at hnone
    rcases keeps_or_fills_layEach hB with hkeeps | hfills
    · exact absurd ((hkeeps.given?_eq w).trans (given?_of_solid hw)) (hnone w)
    · exact absurd (hfills w).given?_eq (hnone _)

theorem filled_of_amends (h : amends g F = true) (hgiven : (sectionOf g F).given? ≠ none) :
    Filled (sectionOf g F) := by
  rw [sectionOf_eq] at hgiven ⊢
  rcases keeps_or_fills_layEach h with hkeeps | hfills
  · exact absurd (hkeeps.given?_eq absent) hgiven
  · exact hfills absent

theorem filled_layEach (hF : ∀ e ∈ F, Present e.2) (h : Filled (sectionOf g F)) (v : Value) :
    Filled (layEach g F v) := by
  rw [sectionOf_eq] at h
  cases hamends : amends g F with
  | true =>
    rcases keeps_or_fills_layEach hamends with hkeeps | hfills
    · have hnone := (hkeeps.given?_eq absent).symm.trans h.given?_eq
      cases hnone
    · exact hfills v
  | false =>
    obtain ⟨B, -, hB, heach⟩ := layEach_of_replaces hF hamends
    obtain ⟨w, hw, -, habsent⟩ := heach absent
    obtain ⟨w', -, -, hv⟩ := heach v
    rcases keeps_or_fills_layEach hB with hkeeps | hfills
    · -- What replaced the table is still there, so there is no table.
      rw [habsent, hkeeps.eq_of_given (given?_of_solid hw)] at h
      obtain ⟨o, e, fs, rfl⟩ := h
      exact hw.elim
    · exact hv ▸ hfills w'

theorem given_layEach (hF : ∀ e ∈ F, Present e.2) (h : (sectionOf g F).given? ≠ none) (v : Value) :
    ∃ w, (layEach g F v).given? = some w := by
  cases hamends : amends g F with
  | true => exact ⟨_, (filled_layEach hF (filled_of_amends hamends h) v).given?_eq⟩
  | false =>
    obtain ⟨B, -, hB, heach⟩ := layEach_of_replaces hF hamends
    obtain ⟨w, hw, -, hv⟩ := heach v
    rw [hv]
    rcases keeps_or_fills_layEach hB with hkeeps | hfills
    · exact ⟨w, (hkeeps.given?_eq w).trans (given?_of_solid hw)⟩
    · exact ⟨_, (hfills w).given?_eq⟩

/-- A value that is no table takes the place of the section, whatever it is. -/
def replaces (g : String) (F : Fields) : Bool :=
  F.any fun e => Key.path e.1 = [.field g] && !changesFields [] e.2

theorem layEach_eq_of_replaces (h : replaces g F = true) (v : Value) :
    layEach g F v = sectionOf g F := by
  rw [sectionOf_eq]
  obtain ⟨e, he, hreplaces⟩ := List.any_eq_true.1 h
  obtain ⟨hpath, hvalue⟩ := Bool.and_eq_true_iff.1 hreplaces
  rw [decide_eq_true_eq] at hpath
  obtain ⟨A, B, rfl⟩ := List.append_of_mem he
  have hlay : ∀ w, layIn g w e = e.2 := by
    intro w
    rw [layIn, hpath]
    dsimp only
    rw [if_pos rfl, update, mergeInto_of_ne_table]
    rintro o fs htable
    rw [htable] at hvalue
    cases hvalue
  simp only [layEach_append, layEach_cons, Function.comp_apply, hlay]

/-- An entry that replaces the table by no value of its own addresses a place in a list. -/
theorem list_layIn (he : amendsWith g e = false) (hnot : replaces g [e] = false) (v : Value) :
    ∃ o items, layIn g v e = list o items := by
  obtain ⟨name, path, h⟩ := Key.exists_path_eq e.1
  unfold amendsWith at he
  rw [h] at he
  obtain ⟨hname, hpath⟩ := Bool.or_eq_false_iff.1 he
  obtain rfl : name = g := by simpa using hname
  match path with
  | [] => simp [replaces, h, hpath] at hnot
  | .field _ :: _ => cases hpath
  | .item i :: path =>
    rw [layIn, h]
    dsimp only
    rw [if_pos rfl, update]
    cases v <;> exact ⟨_, _, rfl⟩

/-- A source that addresses the places of a section by index, and leaves no table, makes it a list. -/
theorem list_layEach (hamends : amends g F = false) (hreplaces : replaces g F = false)
    (hfilled : ¬ Filled (sectionOf g F)) (v : Value) : ∃ o items, layEach g F v = list o items := by
  obtain ⟨A, e, B, rfl, he, hB⟩ := exists_last_replacing hamends
  have hnot : replaces g [e] = false := by
    simp only [replaces, List.any_append, List.any_cons, Bool.or_eq_false_iff] at hreplaces
    simpa [replaces] using hreplaces.2.1
  have heach : ∀ w, layEach g (A ++ e :: B) w = layEach g B (layIn g (layEach g A w) e) := by
    intro w
    rw [layEach_append, layEach_cons, Function.comp_apply]
  rcases keeps_or_fills_layEach hB with hkeeps | hfills
  · obtain ⟨o, items, hlist⟩ := list_layIn he hnot (layEach g A v)
    refine ⟨o, items, ?_⟩
    rw [heach, hlist]
    exact hkeeps.eq_of_given rfl
  · refine absurd ?_ hfilled
    rw [sectionOf_eq, heach]
    exact hfills _

example :
    layEach "global" [("global[0]", scalar none (.int 4))]
      (list none [scalar none (.int 1), scalar none (.int 2)]) =
    list none [scalar none (.int 4), scalar none (.int 2)] := by
  rfl

/-! ### Stacks -/

/-- What a stack of sources amounts to, the highest first. -/
def laid (stack : List Fields) : Value := layAll stack.reverse.flatten

theorem field_laid_cons (g : String) (F : Fields) (stack : List Fields) :
    field g (laid (F :: stack)) = layEach g F (field g (laid stack)) := by
  rw [laid, List.reverse_cons, List.flatten_append, List.flatten_singleton, layAll,
    List.foldl_append, field_foldl_lay]
  rfl

/-- The sources that count for the settings of a section: those down to the first that replaces its
table, that one included. -/
def counted (g : String) : List Fields → List Fields
  | [] => []
  | F :: stack => if amends g F then F :: counted g stack else [F]

/-- What a source gives for a setting on its own. -/
def gives? (g x : String) (F : Fields) : Option Value := (field x (sectionOf g F)).given?

theorem reading_laid (hstack : ∀ F ∈ stack, ∀ e ∈ F, Present e.2) (g x : String) :
    (field x (field g (laid stack))).reading =
      ((counted g stack).findSome? (gives? g x)).map scalar? := by
  induction stack with
  | nil => rfl
  | cons F stack ih =>
    obtain ⟨hF, hstack⟩ := List.forall_mem_cons.1 hstack
    rw [field_laid_cons]
    cases hamends : amends g F with
    | true =>
      have hlays := laysOver_layEach (g := g) x hF hamends
      rw [hlays.reading_eq (v := absent) rfl, ih hstack, ← sectionOf_eq]
      simp only [counted, hamends, if_true, List.findSome?_cons, gives?, reading]
      cases (field x (sectionOf g F)).given? <;> rfl
    | false =>
      rw [field_layEach_of_replaces hF hamends]
      simp only [counted, hamends, Bool.false_eq_true, if_false, List.findSome?_cons,
        List.findSome?_nil, gives?, reading]
      cases (field x (sectionOf g F)).given? <;> rfl

/-- The highest source that gives anything of a section. -/
def top? (g : String) (stack : List Fields) : Option Fields :=
  stack.find? fun F => (sectionOf g F).given?.isSome

theorem given_of_top (h : top? g stack = some F) : ∃ w, (sectionOf g F).given? = some w :=
  Option.isSome_iff_exists.1 (List.find?_some (p := fun F => (sectionOf g F).given?.isSome) h)

theorem present_of_top (hstack : ∀ F ∈ stack, ∀ e ∈ F, Present e.2) (h : top? g stack = some F) :
    ∀ e ∈ F, Present e.2 :=
  hstack F (List.mem_of_find?_eq_some h)

/-- The sources below the highest one that gives anything of a section. -/
def below (g : String) (stack : List Fields) : List Fields :=
  (stack.dropWhile fun F => (sectionOf g F).given?.isNone).tail

/-- A section is what the highest source that gives anything of it makes of the sources below, and
nothing is given if no source gives anything. -/
theorem section_laid (hstack : ∀ F ∈ stack, ∀ e ∈ F, Present e.2) (g : String) :
    (top? g stack = none → (field g (laid stack)).given? = none) ∧
    ∀ F, top? g stack = some F →
      field g (laid stack) = layEach g F (field g (laid (below g stack))) := by
  induction stack with
  | nil =>
    refine ⟨fun _ => rfl, fun F h => ?_⟩
    cases h
  | cons F stack ih =>
    obtain ⟨hF, hstack⟩ := List.forall_mem_cons.1 hstack
    rw [field_laid_cons]
    cases hgiven : (sectionOf g F).given? with
    | none =>
      obtain ⟨hnone, hsome⟩ := ih hstack
      have htop : top? g (F :: stack) = top? g stack := by simp [top?, hgiven]
      have hbelow : below g (F :: stack) = below g stack := by simp [below, hgiven]
      obtain ⟨-, hkeeps⟩ := keeps_of_given?_eq_none hF hgiven
      rw [htop, hbelow]
      refine ⟨fun h => ?_, fun F' hF' => ?_⟩
      · rw [hkeeps.given?_eq, hnone h]
      · -- What `F'` gives is given whatever it is laid over, so `F` keeps it.
        obtain ⟨w, hw⟩ := given_of_top hF'
        have hgives : (sectionOf g F').given? ≠ none := by simp [hw]
        obtain ⟨u, hu⟩ := given_layEach (present_of_top hstack hF') hgives
          (field g (laid (below g stack)))
        rw [hsome F' hF', hkeeps.eq_of_given hu]
    | some v =>
      have htop : top? g (F :: stack) = some F := by simp [top?, hgiven]
      have hbelow : below g (F :: stack) = stack := by simp [below, hgiven]
      rw [htop, hbelow]
      refine ⟨by simp, fun F' hF' => ?_⟩
      rw [Option.some.inj hF']

/-! ### Plain entries -/

/-- The entry is a scalar for one setting of a group. -/
def Plain (e : String × Value) : Prop :=
  (∃ a b, Key.path e.1 = [.field a, .field b]) ∧ ∃ o s, e.2 = scalar o s

variable {x : String}

theorem present_of_plain (h : Plain e) : Present e.2 := by
  obtain ⟨-, o, s, he⟩ := h
  rw [he]
  trivial

theorem amends_of_plain (hF : ∀ e ∈ F, Plain e) (g : String) : amends g F = true := by
  refine List.all_eq_true.2 fun e he => ?_
  obtain ⟨⟨a, b, hpath⟩, -⟩ := hF e he
  simp [amendsWith, hpath, changesFields]

theorem field_layIn_of_plain (he : Plain e) (v : Value) :
    field x (layIn g v e) =
      if Key.path e.1 = [.field g, .field x] then e.2 else field x v := by
  obtain ⟨⟨a, b, hpath⟩, o, s, hvalue⟩ := he
  rw [layIn, hpath]
  by_cases ha : a = g
  · subst ha
    by_cases hb : b = x
    · subst hb
      simp [update, field_alterField_self, hvalue, mergeInto_of_ne_table]
    · simp [update, field_alterField_of_ne (Ne.symm hb), hb]
  · simp [ha]

theorem field_layEach_of_plain (hF : ∀ e ∈ F, Plain e) (v : Value) :
    field x (layEach g F v) =
      ((F.reverse.find? (Key.path ·.1 = [.field g, .field x])).map (·.2)).getD (field x v) := by
  induction F generalizing v with
  | nil => rfl
  | cons e F ih =>
    obtain ⟨he, hF⟩ := List.forall_mem_cons.1 hF
    rw [layEach_cons, Function.comp_apply, ih hF, field_layIn_of_plain he, List.reverse_cons,
      List.find?_append]
    cases F.reverse.find? (Key.path ·.1 = [.field g, .field x]) with
    | some e' => rfl
    | none => by_cases hpath : Key.path e.1 = [.field g, .field x] <;> simp [hpath]

/-- Among plain entries the last for a setting gives it. -/
theorem gives?_of_plain (hF : ∀ e ∈ F, Plain e) :
    gives? g x F = (F.reverse.find? (Key.path ·.1 = [.field g, .field x])).map (·.2) := by
  rw [gives?, sectionOf_eq, field_layEach_of_plain hF]
  cases hfind : F.reverse.find? (Key.path ·.1 = [.field g, .field x]) with
  | none => rfl
  | some e =>
    obtain ⟨-, o, s, he⟩ := hF e (List.mem_reverse.1 (List.mem_of_find?_eq_some hfind))
    simp [he, given?]

end ModuleGraph.Settings

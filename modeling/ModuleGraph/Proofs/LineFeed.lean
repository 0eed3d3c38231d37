import ModuleGraph.Proofs.FileLines
import ModuleGraph.Proofs.KeyLayout

/-!
# Line feeds in declared values

A value stands on one line, or on several joined ones, and the joins go. So a line feed gets into a
value only by an escape: where no backslash stands before an `n` in a definition text, no value that
is read from it holds a line feed, and neither does a path.
-/

namespace ModuleGraph.Definitions

open Text (isInlineBlank dropInlineBlanks)

variable {s t : List Char}

/-- An escape that stands for a line feed; the backslash may also be one that is escaped itself. -/
def feedEscape : List Char := ['\\', 'n']

/-- Read escape by escape, the text holds no line feed and none that stands for one. -/
def feedless : List Char → Bool
  | '\\' :: c :: s => c != 'n' && c != '\n' && feedless s
  | c :: s => c != '\n' && feedless s
  | [] => true

theorem feedless_of_no_pair {c : Char} (hpair : ∀ d t, c = '\\' → s = d :: t → False) :
    feedless (c :: s) = (c != '\n' && feedless s) := by
  rw [feedless]
  exact hpair

theorem feedless_cons {c : Char} (hc : c ≠ '\\') : feedless (c :: s) = (c != '\n' && feedless s) :=
  feedless_of_no_pair fun _ _ he => absurd he hc

/-- A cut through an escape leaves a backslash alone. -/
theorem feedless_of_append (h : feedless (s ++ t) = true) : feedless s = true := by
  fun_induction feedless s with
  | case1 c s ih =>
    rw [List.cons_append, List.cons_append, feedless, Bool.and_eq_true] at h
    rw [Bool.and_eq_true]
    exact ⟨h.1, ih h.2⟩
  | case2 c s hpair ih =>
    by_cases hc : c = '\\'
    · cases s with
      | nil => simp [hc, feedless]
      | cons d s => exact (hpair d s hc rfl).elim
    · rw [List.cons_append, feedless_cons hc, Bool.and_eq_true] at h
      rw [Bool.and_eq_true]
      exact ⟨h.1, ih h.2⟩
  | case3 => rfl

theorem flatten_onFirst (cs : List Char) (v : List (List Char) × List Char) :
    (onFirst cs v).1.flatten = cs ++ v.1.flatten := by
  obtain ⟨lines, rest⟩ := v
  cases lines <;> simp [onFirst]

theorem feedless_valueLines {quoted : Bool} {v : List (List Char) × List Char}
    (h : valueLines quoted s = some v) (hescape : ¬feedEscape <:+: s) :
    feedless v.1.flatten = true := by
  fun_induction valueLines quoted s generalizing v
  case case3 s ih =>
    obtain ⟨a, ha, rfl⟩ := Option.map_eq_some_iff.1 h
    have hrest := ih ha fun hs => hescape (hs.trans (List.suffix_append ['\\', '\n'] s).isInfix)
    exact hrest
  case case4 s ih =>
    obtain ⟨a, ha, rfl⟩ := Option.map_eq_some_iff.1 h
    have hrest := ih ha fun hs =>
      hescape (hs.trans (List.suffix_append ['\\', '\r', '\n'] s).isInfix)
    exact hrest
  case case5 c s hfeed _ _ ih =>
    obtain ⟨a, ha, rfl⟩ := Option.map_eq_some_iff.1 h
    have hrest := ih ha fun hs => hescape (hs.trans (List.suffix_append ['\\', c] s).isInfix)
    have hc : c ≠ 'n' := by
      rintro rfl
      exact hescape (List.prefix_append feedEscape s).isInfix
    have hc' : c ≠ '\n' := hfeed
    simp [flatten_onFirst, feedless, hc, hc', hrest]
  case case8 ih =>
    obtain ⟨a, ha, rfl⟩ := Option.map_eq_some_iff.1 h
    have hrest := ih ha fun hs => hescape (hs.trans (List.suffix_cons _ _).isInfix)
    simpa [flatten_onFirst, feedless_cons] using hrest
  case case12 hslash _ hfeed _ ih =>
    obtain ⟨a, ha, rfl⟩ := Option.map_eq_some_iff.1 h
    have hrest := ih ha fun hs => hescape (hs.trans (List.suffix_cons _ _).isInfix)
    simp [flatten_onFirst, feedless_cons hslash, hfeed, hrest]
  case case2 | case10 | case11 =>
    cases h
    rfl
  all_goals simp_all

theorem exists_of_mem_dropByte {done : List Remnant} {x : Remnant} (h : x ∈ dropByte done) :
    ∃ y ∈ done, x.char = y.char := by
  unfold dropByte at h
  split at h
  · cases h
  · rename_i y ys
    split at h
    · rcases List.mem_cons.1 h with rfl | h
      · exact ⟨y, List.mem_cons_self, rfl⟩
      · exact ⟨x, List.mem_cons_of_mem _ h, rfl⟩
    · exact ⟨x, List.mem_cons_of_mem _ h, rfl⟩

theorem char_ne_feed_of_mem_unescapeFrom {done : List Remnant} (hdone : ∀ x ∈ done, x.char ≠ '\n')
    (h : feedless s = true) : ∀ x ∈ unescapeFrom done s, x.char ≠ '\n' := by
  fun_induction unescapeFrom done s
  case case1 => exact hdone
  case case2 => simp [feedless] at h
  case case3 ih =>
    simp only [feedless, Bool.and_eq_true] at h
    exact ih (List.forall_mem_cons.2 ⟨by decide, hdone⟩) h.2
  case case4 ih =>
    simp only [feedless, Bool.and_eq_true] at h
    refine ih (fun x hx => ?_) h.2
    obtain ⟨y, hy, he⟩ := exists_of_mem_dropByte hx
    exact he ▸ hdone y hy
  case case5 ih =>
    simp only [feedless, Bool.and_eq_true, bne_iff_ne] at h
    exact ih (List.forall_mem_cons.2 ⟨h.1.2, hdone⟩) h.2
  case case6 hpair _ ih =>
    rw [feedless_of_no_pair hpair, Bool.and_eq_true] at h
    exact ih hdone h.2
  case case7 hpair _ ih =>
    rw [feedless_of_no_pair hpair, Bool.and_eq_true, bne_iff_ne] at h
    exact ih (List.forall_mem_cons.2 ⟨h.1, hdone⟩) h.2

theorem feed_notMem_unescape (h : feedless s = true) : '\n' ∉ unescape s := by
  intro hmem
  obtain ⟨x, hx, he⟩ := List.mem_map.1 hmem
  have hnothing : ∀ y ∈ ([] : List Remnant), y.char ≠ '\n' := by simp
  have hchar := char_ne_feed_of_mem_unescapeFrom hnothing h x (List.mem_reverse.1 hx)
  unfold Remnant.toChar at he
  split at he
  · exact hchar he
  · cases he

theorem feed_notMem_readValue? {v : String} {r : List Char} (h : readValue? s = some (v, r))
    (hescape : ¬feedEscape <:+: s) : '\n' ∉ v.toList := by
  obtain ⟨w, hw, he⟩ := Option.map_eq_some_iff.1 h
  obtain ⟨front, last, hlines, -, -⟩ := endsIn_valueLines hw
  have hlast : w.1.getLast?.getD [] = last := by simp [hlines]
  have hfront : w.1.dropLast = front := by simp [hlines]
  simp only [hlast, hfront] at he
  split at he
  · cases he
    exact List.not_mem_nil
  · cases he
    rw [String.toList_ofList]
    apply feed_notMem_unescape
    apply feedless_of_append (t := endBlanks last)
    rw [List.append_assoc, endBlanks_append]
    simpa [hlines] using feedless_valueLines hw hescape

/-! ### Declared paths -/

variable {source text n : String} {d : Definitions} {m : Module}

theorem feed_notMem_value (h : parse source text = .ok d) (hescape : ¬feedEscape <:+: text.toList)
    {b : Section} (hb : b ∈ d.sections) {e : Entry} (he : e ∈ b.entries) :
    '\n' ∉ (e.value.getD "").toList := by
  rw [sections_eq_layout h] at hb
  obtain ⟨a, ha, rfl⟩ := List.mem_map.1 hb
  obtain ⟨k, hk, rfl⟩ := List.mem_map.1 he
  have hafter : k.after <:+ text.toList :=
    (List.suffix_append _ _).trans (keys_of_layout h ha hk).1
  have hblanks : ∀ s, dropInlineBlanks s <:+ s := fun s => List.dropWhile_suffix isInlineBlank
  unfold KeyAt.entry readAssigned
  dsimp only
  split
  · rename_i value r hread
    split at hread
    · rename_i t ht
      split at hread
      · rename_i v r' hv
        cases hread
        have ht' : t <:+ k.after := (List.suffix_cons '=' t).trans (ht ▸ hblanks k.after)
        have hsuffix := (hblanks t).trans (ht'.trans hafter)
        exact feed_notMem_readValue? hv fun hs => hescape (hs.trans hsuffix.isInfix)
      · cases hread
    · cases hread
      split <;> exact List.not_mem_nil
  · exact List.not_mem_nil

/-- Where no escape in the text stands for a line feed, no path of a module holds one. -/
theorem feed_notMem_path (h : parse source text = .ok d) (hescape : ¬feedEscape <:+: text.toList)
    (hload : d.load n = some m) {p : String} (hp : p ∈ m.paths) : '\n' ∉ p.toList := by
  rw [(paths_and_flags_of_load hload).1] at hp
  obtain ⟨b, hb, hp⟩ := List.mem_flatMap.1 hp
  obtain ⟨v, hv, hp⟩ := List.mem_filterMap.1 hp
  obtain ⟨e, he, rfl⟩ := List.mem_map.1 hv
  obtain ⟨cs, hcs, rfl⟩ := Option.map_eq_some_iff.1 hp
  rw [String.toList_ofList]
  intro hmem
  have hvalue := feed_notMem_value h hescape (mem_sectionsOf.1 hb).1 (List.mem_of_mem_filter he)
  exact hvalue ((Path.normalizeChars_infix hcs).subset hmem)

end ModuleGraph.Definitions

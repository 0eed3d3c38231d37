import ModuleGraph.FileTree

/-!
# Changes to a file tree

What can be read at a path after a change somewhere in the tree. Directories that are made disturb
nothing that was there, and a change that succeeds leaves at its path what it says.
-/

namespace ModuleGraph.FileTree

variable {t t' t'' : FileTree} {l at_ : Location} {n : Node} {path name : String}
  {names : List String} {e : FileError} {b : ByteArray}

@[simp] theorem node?_nil (t : FileTree) : t.node? [] = some .directory := rfl

theorem node?_put (t : FileTree) (at_ : Location) (n : Node) (l : Location) :
    (t.put at_ n).node? l =
      if l = [] then some .directory else if l = at_ then some n else t.node? l := by
  by_cases hroot : l = []
  · simp [hroot]
  · by_cases hl : l = at_
    · simp [node?, put, hl]
    · have hne : at_ ≠ l := fun h => hl h.symm
      have hkept : ∀ x : Location × Node, (x.1 ≠ at_ ∧ x.1 = l) = (x.1 = l) := by
        intro x
        by_cases hx : x.1 = l <;> simp [hx, hl]
      simp only [node?, put, hroot, hl, if_false, List.find?_cons, hne, decide_false,
        List.find?_filter, decide_eq_true_eq, hkept]

theorem node?_drop (t : FileTree) (at_ l : Location) :
    (t.drop at_).node? l =
      if l = [] then some .directory else if at_.isPrefixOf l then none else t.node? l := by
  by_cases hroot : l = []
  · simp [hroot]
  · simp only [node?, drop, hroot, if_false, List.find?_filter]
    by_cases hl : at_.isPrefixOf l = true
    · have hnone : ∀ x : Location × Node, (!at_.isPrefixOf x.1 && decide (x.1 = l)) = false := by
        intro x
        by_cases hx : x.1 = l <;> simp [hx, hl]
      simp [hnone, hl]
    · have hkept : ∀ x : Location × Node, (!at_.isPrefixOf x.1 && decide (x.1 = l)) =
          decide (x.1 = l) := by
        intro x
        by_cases hx : x.1 = l <;> simp [hx, hl]
      simp [hkept, hl]

/-! ### Trees that keep what another tree holds -/

/-- Every directory of `t` is one of `t'`. -/
structure KeepsDirectories (t t' : FileTree) : Prop where
  here : t'.currentDirectory = t.currentDirectory
  kept : ∀ l, t.node? l = some .directory → t'.node? l = some .directory

/-- Whatever `t` holds, `t'` holds at the same place. -/
structure Extends (t t' : FileTree) : Prop where
  here : t'.currentDirectory = t.currentDirectory
  kept : ∀ l n, t.node? l = some n → t'.node? l = some n

namespace Extends

theorem refl (t : FileTree) : Extends t t := ⟨rfl, fun _ _ h => h⟩

theorem trans (h : Extends t t') (h' : Extends t' t'') : Extends t t'' := by
  refine ⟨h'.here.trans h.here, ?_⟩
  intro l n hn
  exact h'.kept l n (h.kept l n hn)

theorem keepsDirectories (h : Extends t t') : KeepsDirectories t t' :=
  ⟨h.here, fun l hl => h.kept l .directory hl⟩

theorem put (h : t.node? at_ = none) (n : Node) : Extends t (t.put at_ n) := by
  refine ⟨rfl, ?_⟩
  intro l m hm
  have hl : l ≠ at_ := by
    rintro rfl
    rw [h] at hm
    cases hm
  rw [node?_put, if_neg hl, ← hm]
  split
  · rename_i hroot
    rw [hroot]
    rfl
  · rfl

end Extends

theorem node?_of_step (h : t.step at_ name = .ok l) : t.node? at_ = some .directory := by
  unfold step at h
  split at h
  · cases h
  · cases h
  · assumption

theorem step_congr (h : t'.node? at_ = t.node? at_) (name : String) :
    t'.step at_ name = t.step at_ name := by
  unfold step
  rw [h]

theorem KeepsDirectories.follow (h : KeepsDirectories t t')
    (hl : names.foldlM t.step at_ = .ok l) : names.foldlM t'.step at_ = .ok l := by
  induction names generalizing at_ with
  | nil => exact hl
  | cons name names ih =>
    rw [List.foldlM_cons] at hl ⊢
    cases hs : t.step at_ name with
    | error e =>
      rw [hs] at hl
      cases hl
    | ok next =>
      have hd := node?_of_step hs
      rw [hs] at hl
      rw [step_congr ((h.kept at_ hd).trans hd.symm), hs]
      exact ih hl

/-- What stops a path, other than that something is missing, stops it still. -/
theorem Extends.follow_error (h : Extends t t') (hl : names.foldlM t.step at_ = .error e)
    (he : e ≠ .notFound) : names.foldlM t'.step at_ = .error e := by
  induction names generalizing at_ with
  | nil => cases hl
  | cons name names ih =>
    rw [List.foldlM_cons] at hl ⊢
    cases hn : t.node? at_ with
    | none =>
      have hs : t.step at_ name = .error .notFound := by simp [step, hn]
      rw [hs] at hl
      cases hl
      exact absurd rfl he
    | some n =>
      rw [step_congr ((h.kept at_ n hn).trans hn.symm)]
      cases hs : t.step at_ name with
      | error e' =>
        rw [hs] at hl
        exact hl
      | ok next =>
        rw [hs] at hl
        exact ih hl

theorem locate_eq_foldlM (hpath : path ≠ "") (hnul : '\x00' ∉ path.toList) :
    t.locate path = (FilePath.parts path).foldlM t.step (t.start path) := by
  have hcontains : path.contains '\x00' = false := by
    rw [String.contains_char_eq, decide_eq_false hnul]
  rw [locate, if_neg hpath, hcontains]
  rfl

theorem start_congr (h : t'.currentDirectory = t.currentDirectory) (path : String) :
    t'.start path = t.start path := by
  unfold start
  rw [h]

theorem KeepsDirectories.locate (h : KeepsDirectories t t') (hl : t.locate path = .ok l) :
    t'.locate path = .ok l := by
  unfold FileTree.locate at hl ⊢
  rw [start_congr h.here]
  split at hl
  · cases hl
  · rename_i hempty
    rw [if_neg hempty]
    split at hl
    · cases hl
    · rename_i hnul
      rw [if_neg hnul]
      exact h.follow hl

theorem Extends.locate_error (h : Extends t t') (hl : t.locate path = .error e)
    (he : e ≠ .notFound) : t'.locate path = .error e := by
  unfold FileTree.locate at hl ⊢
  rw [start_congr h.here]
  split at hl
  · cases hl
    exact absurd rfl he
  · rename_i hempty
    rw [if_neg hempty]
    split at hl
    · rename_i hnul
      rw [if_pos hnul]
      exact hl
    · rename_i hnul
      rw [if_neg hnul]
      exact h.follow_error hl he

/-- A path that led to something leads to the same thing. -/
theorem Extends.read (h : Extends t t') (hr : t.read path ≠ .error .notFound) :
    t'.read path = t.read path := by
  unfold FileTree.read find at hr ⊢
  cases hl : t.locate path with
  | error e =>
    have he : e ≠ .notFound := by
      rintro rfl
      simp [hl] at hr
    rw [h.locate_error hl he]
  | ok at_ =>
    rw [h.keepsDirectories.locate hl]
    cases hn : t.node? at_ with
    | none => simp [hl, hn] at hr
    | some n => simp only [h.kept at_ n hn, hn]

/-! ### Directories that are made -/

theorem extends_makeAlong (t : FileTree) (at_ : Location) (names : List String) :
    Extends t (t.makeAlong at_ names).1 := by
  induction names generalizing t at_ with
  | nil => exact .refl t
  | cons name names ih =>
    unfold makeAlong
    split
    · exact .refl t
    · split
      · rename_i hn
        exact (Extends.put hn _).trans (ih _ _)
      · exact .refl t
      · exact ih _ _

theorem extends_makeDirectory (t : FileTree) (path : String) :
    Extends t (t.makeDirectory path).1 := by
  unfold makeDirectory
  split
  · exact .refl t
  · split
    · exact .refl t
    · exact extends_makeAlong _ _ _

theorem writeFile_error (h : (t.writeFile path b).2 = .error e) : (t.writeFile path b).1 = t := by
  unfold writeFile at h ⊢
  split
  · rfl
  · split
    · rfl
    · simp_all

theorem write_error (h : (t.write path b).2 = .error e) : Extends t (t.write path b).1 := by
  have hmade := extends_makeDirectory t (parentPath path)
  unfold write at h ⊢
  split
  · rename_i t₁ e₁ hm
    rw [hm] at hmade
    exact hmade
  · rename_i t₁ hm
    rw [hm] at h hmade
    rw [writeFile_error h]
    exact hmade

/-- Makes one directory, where there is nothing yet. -/
def makeSingle (t : FileTree) (path : String) : FileTree × Except FileError Unit :=
  match t.locate path with
  | .error e => (t, .error e)
  | .ok at_ =>
    match t.node? at_ with
    | some _ => (t, .error .alreadyExists)
    | none => (t.put at_ .directory, .ok ())

theorem makeSingle_error (h : (t.makeSingle path).2 = .error e) : (t.makeSingle path).1 = t := by
  unfold makeSingle at h ⊢
  split
  · rfl
  · split
    · rfl
    · simp_all

theorem remove_error (h : (t.remove path).2 = .error e) : (t.remove path).1 = t := by
  unfold remove at h ⊢
  split
  · rfl
  · split
    · rfl
    · simp_all

/-! ### What a change leaves at its path -/

theorem keepsDirectories_put (h : t.node? at_ ≠ some .directory) (n : Node) :
    KeepsDirectories t (t.put at_ n) := by
  refine ⟨rfl, ?_⟩
  intro l hl
  have hne : l ≠ at_ := by
    rintro rfl
    exact h hl
  rw [node?_put, if_neg hne, hl]
  split <;> rfl

theorem read_of_locate (hl : t.locate path = .ok l) (hn : t.node? l = some n) :
    t.read path = match n with
      | .file b => .ok b
      | .directory => .error .isDirectory := by
  unfold read find
  rw [hl]
  simp only [hn]
  cases n <;> rfl

theorem locate_of_locateFile (h : t.locateFile path = .ok l) : t.locate path = .ok l := by
  unfold locateFile at h
  split at h
  · split at h
    · cases h
    · split at h <;> cases h
  · exact h

theorem read_writeFile (h : (t.writeFile path b).2 = .ok ()) :
    (t.writeFile path b).1.read path = .ok b := by
  unfold writeFile at h ⊢
  split
  · rename_i hl
    simp [hl] at h
  · rename_i at_ hl
    split
    · rename_i hn
      simp [hl, hn] at h
    · rename_i hn
      have hloc := (keepsDirectories_put hn (.file b)).locate (locate_of_locateFile hl)
      have hroot : at_ ≠ [] := by
        rintro rfl
        exact hn rfl
      have hfile : (t.put at_ (.file b)).node? at_ = some (.file b) := by simp [node?_put, hroot]
      exact read_of_locate hloc hfile

theorem read_write (h : (t.write path b).2 = .ok ()) : (t.write path b).1.read path = .ok b := by
  unfold write at h ⊢
  split
  · rename_i hm
    simp [hm] at h
  · rename_i hm
    rw [hm] at h
    exact read_writeFile h

theorem follow_makeAlong (h : (t.makeAlong at_ names).2 = .ok ())
    (hd : t.node? at_ = some .directory ∨ names ≠ []) :
    ∃ l, names.foldlM (t.makeAlong at_ names).1.step at_ = .ok l ∧
      (t.makeAlong at_ names).1.node? l = some .directory := by
  induction names generalizing t at_ with
  | nil =>
    rcases hd with hd | hd
    · exact ⟨at_, rfl, hd⟩
    · exact absurd rfl hd
  | cons name names ih =>
    have hext := extends_makeAlong t at_ (name :: names)
    cases hs : t.step at_ name with
    | error e => simp [makeAlong, hs] at h
    | ok next =>
      have hat := node?_of_step hs
      rw [List.foldlM_cons, step_congr ((hext.kept at_ _ hat).trans hat.symm), hs]
      cases hn : t.node? next with
      | none =>
        have hmade : t.makeAlong at_ (name :: names) =
            (t.put next .directory).makeAlong next names := by
          simp [makeAlong, hs, hn]
        rw [hmade] at h ⊢
        refine ih h (.inl ?_)
        rw [node?_put]
        simp
      | some n =>
        cases n with
        | file b => simp [makeAlong, hs, hn] at h
        | directory =>
          have hmade : t.makeAlong at_ (name :: names) = t.makeAlong next names := by
            simp [makeAlong, hs, hn]
          rw [hmade] at h ⊢
          exact ih h (.inl hn)

theorem read_makeDirectory (h : (t.makeDirectory path).2 = .ok ()) (hp : path ≠ "") :
    (t.makeDirectory path).1.read path = .error .isDirectory := by
  have hext := extends_makeDirectory t path
  unfold makeDirectory at h hext ⊢
  rw [if_neg hp] at h hext ⊢
  split at h
  · cases h
  · rename_i hnul
    rw [if_neg hnul] at hext ⊢
    have hparts : FilePath.parts path ≠ [] := by
      simp [FilePath.parts, Text.splitAt_ne_nil]
    obtain ⟨l, hl, hn⟩ := follow_makeAlong h (.inr hparts)
    refine read_of_locate (n := .directory) ?_ hn
    unfold locate
    rw [if_neg hp, if_neg hnul, start_congr hext.here]
    exact hl

theorem read_makeSingle (h : (t.makeSingle path).2 = .ok ()) :
    (t.makeSingle path).1.read path = .error .isDirectory := by
  unfold makeSingle at h ⊢
  split
  · rename_i hl
    simp [hl] at h
  · rename_i at_ hl
    split
    · rename_i hn
      simp [hl, hn] at h
    · rename_i hn
      have hloc := (Extends.put hn .directory).keepsDirectories.locate hl
      have hmade : (t.put at_ .directory).node? at_ = some .directory := by simp [node?_put]
      exact read_of_locate hloc hmade

/-- A path into what was taken away misses something on its way. -/
theorem follow_drop (t : FileTree) (gone : Location) (h : names.foldlM t.step at_ = .ok l) :
    names.foldlM (t.drop gone).step at_ = .ok l ∨
      names.foldlM (t.drop gone).step at_ = .error .notFound := by
  induction names generalizing at_ with
  | nil => exact .inl h
  | cons name names ih =>
    rw [List.foldlM_cons] at h ⊢
    cases hs : t.step at_ name with
    | error e =>
      rw [hs] at h
      cases h
    | ok next =>
      rw [hs] at h
      have hat := node?_of_step hs
      have hnode : (t.drop gone).node? at_ = some .directory ∨ (t.drop gone).node? at_ = none := by
        rw [node?_drop]
        split
        · exact .inl rfl
        · split
          · exact .inr rfl
          · exact .inl hat
      rcases hnode with hnode | hnode
      · rw [step_congr (hnode.trans hat.symm), hs]
        exact ih h
      · have hmissing : (t.drop gone).step at_ name = .error .notFound := by simp [step, hnode]
        rw [hmissing]
        exact .inr rfl

theorem read_remove (h : (t.remove path).2 = .ok ()) (hp : t.locate path ≠ .ok []) :
    (t.remove path).1.read path = .error .notFound := by
  unfold remove at h ⊢
  cases hl : t.locate path with
  | error e => simp [hl] at h
  | ok gone =>
    have hroot : gone ≠ [] := by
      rintro rfl
      exact hp hl
    cases hn : t.node? gone with
    | none => simp [hl, hn] at h
    | some n =>
      simp only [hn]
      have hgone : (t.drop gone).node? gone = none := by
        rw [node?_drop, if_neg hroot, if_pos (by simp)]
      have hloc : (t.drop gone).locate path = .ok gone ∨
          (t.drop gone).locate path = .error .notFound := by
        unfold locate at hl ⊢
        split at hl
        · cases hl
        · rename_i hempty
          rw [if_neg hempty]
          split at hl
          · cases hl
          · rename_i hnul
            rw [if_neg hnul]
            exact follow_drop t gone hl
      unfold read find
      rcases hloc with hloc | hloc
      · rw [hloc]
        simp only [hgone]
      · rw [hloc]

end ModuleGraph.FileTree

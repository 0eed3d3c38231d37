import ModuleGraph.Catalog
import ModuleGraph.Selection
import ModuleGraph.Proofs.FileTree
import ModuleGraph.Proofs.Lookup

/-!
# Catalogs kept in a file

A catalog in a file follows the file: whatever happens to the files between two questions, each is
answered as by a catalog in memory that holds what the file holds at that moment. Asking changes no
file.
-/

namespace ModuleGraph

/-! ### Questions -/

inductive Query
  | list
  | load (name : String)
  | resolve (name : String)
  | plan (name : String)
  | select (patterns : List String)
  deriving Repr, DecidableEq

inductive Answer
  | names (names : List String)
  | module (m : Module)
  | resolution (r : Resolution)
  | plan (p : Plan)
  deriving Repr, DecidableEq

def Query.answer (d : Definitions) : Query → Except CatalogError Answer
  | list => .ok (.names d.names)
  | load name => (d.require name).map .module
  | resolve name => (d.resolution name).map .resolution
  | plan name => (d.visibility name).map .plan
  | select patterns => (d.matching patterns).map .names

/-- The error as it reads where the definitions come from another source. -/
def CatalogError.inSource (source : String) : CatalogError → CatalogError
  | malformed _ reason => malformed source reason
  | e => e

theorem load_of_sections (source source' : String) (ss : List Definitions.Section) (n : String) :
    Definitions.load ⟨source, ss⟩ n = Definitions.load ⟨source', ss⟩ n := by
  induction n using parent_induction with
  | h name ih =>
    have hparent : (parentName? name).bind (Definitions.load ⟨source, ss⟩) =
        (parentName? name).bind (Definitions.load ⟨source', ss⟩) := by
      cases hp : parentName? name with
      | none => rfl
      | some parent => exact ih parent hp
    rw [Definitions.load_eq, Definitions.load_eq, hparent]
    rfl

/-- Only the texts of errors tell where definitions come from. -/
theorem answer_of_sections (source source' : String) (ss : List Definitions.Section) (q : Query) :
    q.answer ⟨source, ss⟩ = q.answer ⟨source', ss⟩ := by
  have hload : Definitions.load ⟨source, ss⟩ = Definitions.load ⟨source', ss⟩ :=
    funext (load_of_sections source source' ss)
  have hnames : Definitions.names ⟨source, ss⟩ = Definitions.names ⟨source', ss⟩ := rfl
  have hresolve : ModuleGraph.resolve ⟨source, ss⟩ = ModuleGraph.resolve ⟨source', ss⟩ := by
    funext t
    simp only [ModuleGraph.resolve, hload]
  have hplan : ModuleGraph.plan ⟨source, ss⟩ = ModuleGraph.plan ⟨source', ss⟩ := by
    funext t
    simp only [ModuleGraph.plan, hresolve, Plan.otherModules, Plan.skipWarnings, Plan.otherNames,
      hload, hnames]
  cases q with
  | list => rfl
  | load name => simp only [Query.answer, Definitions.require, hload]
  | resolve name =>
    simp only [Query.answer, Definitions.resolution, Definitions.require, hload, hresolve]
  | plan name => simp only [Query.answer, Definitions.visibility, Definitions.require, hload, hplan]
  | select patterns => rfl

section Errors

variable {d : Definitions} {e : CatalogError} {source : String}

theorem error_of_map {α β : Type} {f : α → β} {x : Except CatalogError α}
    (h : x.map f = .error e) : x = .error e := by
  cases x with
  | error e' => exact congrArg _ (Except.error.inj h)
  | ok a => cases h

theorem error_of_ofEach {matcher : Selection.Matcher} {names patterns : List String}
    (h : Selection.ofEach matcher names patterns = .error e) :
    ∃ pattern reason, e = .invalidPattern pattern reason := by
  induction patterns with
  | nil => cases h
  | cons p ps ih =>
    unfold Selection.ofEach at h
    split at h
    · rename_i e' hp
      cases h
      unfold Selection.ofPattern at hp
      split at hp
      · cases hp
      · split at hp
        · cases hp
          exact ⟨_, _, rfl⟩
        · cases hp
    · exact ih (error_of_map h)

theorem error_of_require {n : String} (h : d.require n = .error e) : e = .notFound n := by
  unfold Definitions.require at h
  split at h
  · cases h
  · cases h
    rfl

theorem inSource_of_answer {q : Query} (h : q.answer d = .error e) : e.inSource source = e := by
  cases q with
  | list => cases h
  | load name =>
    rw [error_of_require (error_of_map h)]
    rfl
  | resolve name | plan name =>
    rw [error_of_require (error_of_map (error_of_map h))]
    rfl
  | select patterns =>
    obtain ⟨pattern, reason, rfl⟩ := error_of_ofEach (error_of_map (error_of_map h))
    rfl

/-- A catalog in a file answers as one in memory does, up to the source that an error names. -/
theorem answer_file (path text : String) (q : Query) :
    (Store.file path).answer q.answer (some text) =
      ((Store.inline text).answer q.answer (some text)).mapError (.inSource path) := by
  unfold Store.answer Store.definitions Definitions.parse
  cases Definitions.readSectionList ((some text).getD "").toList with
  | error fault => rfl
  | ok ss =>
    change q.answer ⟨path, ss⟩ = (q.answer ⟨"<inline>", ss⟩).mapError (.inSource path)
    rw [answer_of_sections path "<inline>" ss q]
    cases h : q.answer ⟨"<inline>", ss⟩ with
    | error e => exact congrArg _ (inSource_of_answer h).symm
    | ok a => rfl

end Errors

/-! ### Changes to the files -/

/-- One change to the files around a catalog. A deep one first makes the directories on the way that
are missing. -/
inductive Change
  | write (path : String) (content : ByteArray) (deep : Bool)
  /-- Writes a file anew with what it held and more. -/
  | append (path : String) (content : ByteArray) (deep : Bool)
  | remove (path : String)
  | makeDirectory (path : String) (deep : Bool)

namespace Change

def path : Change → String
  | write path .. | append path .. | remove path | makeDirectory path _ => path

def isDeep : Change → Bool
  | write _ _ deep | append _ _ deep | makeDirectory _ deep => deep
  | remove _ => false

/-- Writes a file, if deep with the directories it lies in. -/
def writeAt (t : FileTree) (path : String) (content : ByteArray) (deep : Bool) :
    FileTree × Except FileError Unit :=
  if deep then t.write path content else t.writeFile path content

def apply (t : FileTree) : Change → FileTree × Except FileError Unit
  | write path content deep => writeAt t path content deep
  | append path content deep => writeAt t path (t.contentOrEmpty path ++ content) deep
  | remove path => t.remove path
  | makeDirectory path deep => if deep then t.makeDirectory path else t.makeSingle path

/-- What is read at the path of a change that succeeded. -/
def leaves (t : FileTree) : Change → Except FileError ByteArray
  | write _ content _ => .ok content
  | append path content _ => .ok (t.contentOrEmpty path ++ content)
  | remove _ => .error .notFound
  | makeDirectory .. => .error .isDirectory

variable {t : FileTree} {c : Change} {path : String} {content : ByteArray} {deep : Bool}
  {e : FileError}

theorem writeAt_shallow (t : FileTree) (path : String) (content : ByteArray) :
    writeAt t path content false = t.writeFile path content := if_neg Bool.false_ne_true

theorem writeAt_deep (t : FileTree) (path : String) (content : ByteArray) :
    writeAt t path content true = t.write path content := if_pos rfl

theorem extends_of_writeAt_error (h : (writeAt t path content deep).2 = .error e) :
    FileTree.Extends t (writeAt t path content deep).1 := by
  cases deep with
  | false =>
    rw [writeAt_shallow] at h ⊢
    rw [FileTree.writeFile_error h]
    exact .refl t
  | true =>
    rw [writeAt_deep] at h ⊢
    exact FileTree.write_error h

/-- Of a change that failed no more is left than directories that were missing. -/
theorem extends_of_error (h : (c.apply t).2 = .error e) : FileTree.Extends t (c.apply t).1 := by
  cases c with
  | write path content deep => exact extends_of_writeAt_error h
  | append path content deep => exact extends_of_writeAt_error h
  | remove path =>
    rw [apply, FileTree.remove_error h]
    exact .refl t
  | makeDirectory path deep =>
    cases deep with
    | false =>
      rw [apply, if_neg Bool.false_ne_true, FileTree.makeSingle_error h]
      exact .refl t
    | true => exact FileTree.extends_makeDirectory t path

theorem eq_of_error (h : (c.apply t).2 = .error e) (hc : c.isDeep = false) :
    (c.apply t).1 = t := by
  cases c with
  | write path content deep =>
    obtain rfl : deep = false := hc
    exact FileTree.writeFile_error h
  | append path content deep =>
    obtain rfl : deep = false := hc
    exact FileTree.writeFile_error h
  | remove path => exact FileTree.remove_error h
  | makeDirectory path deep =>
    obtain rfl : deep = false := hc
    exact FileTree.makeSingle_error h

theorem read_writeAt (h : (writeAt t path content deep).2 = .ok ()) :
    (writeAt t path content deep).1.read path = .ok content := by
  cases deep with
  | false =>
    rw [writeAt_shallow] at h ⊢
    exact FileTree.read_writeFile h
  | true =>
    rw [writeAt_deep] at h ⊢
    exact FileTree.read_write h

theorem read_of_ok (h : (c.apply t).2 = .ok ()) (hempty : c.path ≠ "")
    (hroot : t.locate c.path ≠ .ok []) : (c.apply t).1.read c.path = c.leaves t := by
  cases c with
  | write path content deep => exact read_writeAt h
  | append path content deep => exact read_writeAt h
  | remove path => exact FileTree.read_remove h hroot
  | makeDirectory path deep =>
    cases deep with
    | false => exact FileTree.read_makeSingle h
    | true => exact FileTree.read_makeDirectory h hempty

end Change

/-! ### Runs -/

inductive Action
  | change (c : Change)
  | query (q : Query)

inductive Outcome
  | changed (result : Except FileError Unit)
  | answered (answer : Except CatalogError Answer)

namespace Action

/-- Does what the action says, with the catalog in a store. -/
def perform (s : Store) : Action → StateM FileTree Outcome
  | change c => do
    let (t, result) := c.apply (← get)
    set t
    return .changed result
  | query q => return .answered (← s.ask q.answer)

/-- The tree after an action: a question leaves it as it is. -/
def effect (t : FileTree) : Action → FileTree
  | change c => (c.apply t).1
  | query _ => t

end Action

/-- The tree after some actions: that after the changes among them. -/
def treeAfter (t : FileTree) (as : List Action) : FileTree := as.foldl Action.effect t

namespace Store

def run (s : Store) (as : List Action) : StateM FileTree (List Outcome) := as.mapM (·.perform s)

/-- What becomes of actions that start with the files as in the tree. -/
def outcomes (s : Store) (t : FileTree) (as : List Action) : List Outcome :=
  ((s.run as).run t).1

/-- The answer while the files are as in the tree. -/
def answerIn (s : Store) (t : FileTree) (q : Query) : Except CatalogError Answer :=
  ((s.ask q.answer : StateM FileTree _).run t).1

variable {s : Store} {t : FileTree} {path : String} {q : Query}

theorem answerIn_file (path : String) (t : FileTree) (q : Query) :
    (Store.file path).answerIn t q =
      (textOf path (t.read path)).bind ((Store.file path).answer q.answer) := rfl

theorem answerIn_inline (text : String) (t : FileTree) (q : Query) :
    (Store.inline text).answerIn t q = (Store.inline text).answer q.answer (some text) := rfl

end Store

/-- The answer is the one that the content of the file gives: that of a catalog in memory holding
its text, or the empty text if there is no file, and else a complaint that it cannot be read. -/
structure Reflects (t : FileTree) (path : String) (q : Query) (a : Except CatalogError Answer) :
    Prop where
  of_text : ∀ bytes text, t.read path = .ok bytes → Text.decode? bytes = some text →
    a = ((Store.inline text).answerIn t q).mapError (.inSource path)
  of_nothing : t.read path = .error .notFound →
    a = ((Store.inline "").answerIn t q).mapError (.inSource path)
  of_other_bytes : ∀ bytes, t.read path = .ok bytes → Text.decode? bytes = none →
    a = .error (.unreadable path notUtf8)
  of_refusal : ∀ e, t.read path = .error e → e ≠ .notFound → a = .error (.unreadable path e.text)

theorem reflects_answerIn (t : FileTree) (path : String) (q : Query) :
    Reflects t path q ((Store.file path).answerIn t q) := by
  rw [Store.answerIn_file]
  constructor
  · intro bytes text hr htext
    rw [hr, Store.answerIn_inline, ← answer_file]
    simp only [Store.textOf, htext]
    rfl
  · intro hr
    rw [hr, Store.answerIn_inline, ← answer_file]
    rfl
  · intro bytes hr htext
    rw [hr]
    simp only [Store.textOf, htext]
    rfl
  · intro e hr he
    rw [hr]
    unfold Store.textOf
    split
    · rename_i h
      cases h
      exact absurd rfl he
    · rename_i h
      cases h
      rfl
    · rename_i h
      cases h

/-! ### Whole runs -/

variable {s : Store}

theorem run_cons (s : Store) (t : FileTree) (a : Action) (as : List Action) :
    (s.run (a :: as)).run t =
      (((a.perform s).run t).1 :: s.outcomes (a.effect t) as,
        ((s.run as).run (a.effect t)).2) := by
  rw [Store.run, List.mapM_cons]
  cases a with
  | change c => rfl
  | query q => cases s <;> rfl

theorem tree_run (s : Store) (t : FileTree) (as : List Action) :
    ((s.run as).run t).2 = treeAfter t as := by
  induction as generalizing t with
  | nil => rfl
  | cons a as ih =>
    rw [run_cons]
    exact ih _

theorem outcomes_append (s : Store) (t : FileTree) (as bs : List Action) :
    s.outcomes t (as ++ bs) = s.outcomes t as ++ s.outcomes (treeAfter t as) bs := by
  induction as generalizing t with
  | nil => rfl
  | cons a as ih =>
    unfold Store.outcomes at ih ⊢
    rw [List.cons_append, run_cons, run_cons]
    exact congrArg _ (ih _)

theorem treeAfter_append (t : FileTree) (as bs : List Action) :
    treeAfter t (as ++ bs) = treeAfter (treeAfter t as) bs := List.foldl_append

/-- An action in the middle of a run meets the files as the changes before it left them. -/
theorem run_split (s : Store) (t : FileTree) (before after : List Action) (a : Action) :
    (s.run (before ++ a :: after)).run t =
      (s.outcomes t before ++ ((a.perform s).run (treeAfter t before)).1 ::
          s.outcomes (a.effect (treeAfter t before)) after,
        treeAfter (a.effect (treeAfter t before)) after) := by
  refine Prod.ext ?_ ?_
  · have hlater : s.outcomes (treeAfter t before) (a :: after) =
        ((a.perform s).run (treeAfter t before)).1 ::
          s.outcomes (a.effect (treeAfter t before)) after := by
      rw [Store.outcomes, run_cons]
    exact (outcomes_append s t before (a :: after)).trans (congrArg _ hlater)
  · rw [tree_run, treeAfter_append]
    rfl

/-- Nothing else of a run shows that a question was asked. -/
theorem run_query (s : Store) (t : FileTree) (before after : List Action) (q : Query) :
    (s.run (before ++ .query q :: after)).run t =
      (s.outcomes t before ++
          .answered (s.answerIn (treeAfter t before) q) :: s.outcomes (treeAfter t before) after,
        treeAfter t (before ++ after)) := by
  rw [run_split, treeAfter_append]
  cases s <;> rfl

/-- A change that fails and makes no directories on its way leaves no trace in a run. -/
theorem run_failed_change {c : Change} {e : FileError} (s : Store) (t : FileTree)
    (before after : List Action) (h : (c.apply (treeAfter t before)).2 = .error e)
    (hc : c.isDeep = false) :
    (s.run (before ++ .change c :: after)).run t =
      (s.outcomes t before ++ .changed (.error e) :: s.outcomes (treeAfter t before) after,
        treeAfter t (before ++ after)) := by
  have htree : (Action.change c).effect (treeAfter t before) = treeAfter t before :=
    Change.eq_of_error h hc
  rw [run_split, treeAfter_append, htree, ← h]
  rfl

/-- Whatever actions come before and after it, a question to a catalog in a file is answered by what
the file holds at that moment, and the run goes on as if it had not been asked. What the file holds
is what the last change that succeeded there left. A change that failed leaves the answer as it was,
unless there was nothing at the path, and in any case if it makes no directories on its way: then
the run goes on as without it. -/
theorem file_catalog_follows_file (path : String) (t : FileTree) (before after : List Action)
    (q : Query) :
    (∃ a, ((Store.file path).run (before ++ .query q :: after)).run t =
        ((Store.file path).outcomes t before ++
            .answered a :: (Store.file path).outcomes (treeAfter t before) after,
          treeAfter t (before ++ after)) ∧
      Reflects (treeAfter t before) path q a ∧
      ∀ (c : Change) (e : FileError), (c.apply (treeAfter t before)).2 = .error e →
        (treeAfter t before).read path ≠ .error .notFound →
        (Store.file path).answerIn (c.apply (treeAfter t before)).1 q = a) ∧
    (∀ c : Change, c.path = path → path ≠ "" → (treeAfter t before).locate path ≠ .ok [] →
      (c.apply (treeAfter t before)).2 = .ok () →
      (c.apply (treeAfter t before)).1.read path = c.leaves (treeAfter t before)) ∧
    ∀ (c : Change) (e : FileError), (c.apply (treeAfter t before)).2 = .error e →
      c.isDeep = false →
      ((Store.file path).run (before ++ .change c :: after)).run t =
        ((Store.file path).outcomes t before ++
            .changed (.error e) :: (Store.file path).outcomes (treeAfter t before) after,
          treeAfter t (before ++ after)) := by
  refine ⟨⟨_, run_query _ t before after q, reflects_answerIn _ path q, ?_⟩, ?_, ?_⟩
  · intro c e herr hread
    rw [Store.answerIn_file, Store.answerIn_file, (Change.extends_of_error herr).read hread]
  · rintro c rfl hempty hroot hok
    exact Change.read_of_ok hok hempty hroot
  · intro c e herr hc
    exact run_failed_change _ t before after herr hc

/-! ### A catalog that comes and goes -/

def coreText : String := "[module \"core\"]\n\tpath = lib\n"

def uiText : String := "[module \"ui\"]\n\tpath = src/ui\n\tdepends = core\n"

def writeCore : Change := .write ".modgit" coreText.toUTF8 false

def addUi : Change := .append ".modgit" uiText.toUTF8 false

def removeAll : Change := .remove ".modgit"

/-- The tree with a definition file that holds a text. -/
def treeWith (text : String) : FileTree where
  nodes := [([".modgit"], .file text.toUTF8)]

theorem locate_modgit {t : FileTree} (h : t.currentDirectory = []) :
    t.locate ".modgit" = .ok [".modgit"] := by
  have hparts : FilePath.parts ".modgit" = [".modgit"] := by decide +kernel
  have hstart : t.start ".modgit" = [] := by
    rw [FileTree.start, h]
    exact ite_self _
  rw [FileTree.locate_eq_foldlM (by decide) (by decide), hparts, hstart]
  rfl

theorem locateFile_modgit {t : FileTree} (h : t.currentDirectory = []) :
    t.locateFile ".modgit" = .ok [".modgit"] := by
  have hends : ".modgit".endsWith "/" = false := by decide +kernel
  rw [FileTree.locateFile, hends]
  exact locate_modgit h

theorem apply_writeCore : writeCore.apply {} = (treeWith coreText, .ok ()) := by
  have hfile : FileTree.locateFile {} ".modgit" = .ok [".modgit"] := locateFile_modgit rfl
  rw [writeCore, Change.apply, Change.writeAt_shallow, FileTree.writeFile, hfile]
  rfl

theorem read_treeWith (text : String) :
    (treeWith text).read ".modgit" = .ok text.toUTF8 := by
  have hlocate : (treeWith text).locate ".modgit" = .ok [".modgit"] := locate_modgit rfl
  rw [FileTree.read, FileTree.find, hlocate]
  rfl

theorem apply_addUi : addUi.apply (treeWith coreText) = (treeWith (coreText ++ uiText), .ok ()) := by
  have hfile : (treeWith coreText).locateFile ".modgit" = .ok [".modgit"] := locateFile_modgit rfl
  have hbytes : coreText.toUTF8 ++ uiText.toUTF8 = (coreText ++ uiText).toUTF8 := by simp
  rw [addUi, Change.apply, Change.writeAt_shallow, FileTree.writeFile, hfile,
    FileTree.contentOrEmpty, read_treeWith]
  simp only [hbytes]
  rfl

theorem apply_removeAll (text : String) : removeAll.apply (treeWith text) = ({}, .ok ()) := by
  have hlocate : (treeWith text).locate ".modgit" = .ok [".modgit"] := locate_modgit rfl
  rw [removeAll, Change.apply, FileTree.remove, hlocate]
  rfl

theorem read_removed : FileTree.read {} ".modgit" = .error .notFound := by
  have hlocate : FileTree.locate {} ".modgit" = .ok [".modgit"] := locate_modgit rfl
  rw [FileTree.read, FileTree.find, hlocate]
  rfl

/-- A module is found once the file declares it, the next one once it is added, and no module once
the file is gone. -/
theorem session_follows_file :
    (Store.file ".modgit").outcomes {}
        [.change writeCore, .query (.load "core"), .change addUi, .query (.resolve "ui"),
          .change removeAll, .query (.load "core")] =
      [.changed (.ok ()), .answered (.ok (.module { name := "core", paths := ["lib"] })),
        .changed (.ok ()), .answered (.ok (.resolution ⟨"ui", ["src/ui", "lib"], []⟩)),
        .changed (.ok ()), .answered (.error (.notFound "core"))] := by
  have hstep : ∀ {t t' : FileTree} {c : Change} {q : Query} {answer : Except CatalogError Answer}
      (rest : List Action), c.apply t = (t', .ok ()) →
      (∀ a, Reflects t' ".modgit" q a → a = answer) →
      (Store.file ".modgit").outcomes t (.change c :: .query q :: rest) =
        .changed (.ok ()) :: .answered answer :: (Store.file ".modgit").outcomes t' rest := by
    intro t t' c q answer rest hc hanswer
    obtain ⟨⟨a, hrun, hreflects, -⟩, -⟩ :=
      file_catalog_follows_file ".modgit" t [.change c] rest q
    have htree : treeAfter t [.change c] = t' := congrArg Prod.fst hc
    have hchanged : (Store.file ".modgit").outcomes t [.change c] = [.changed (.ok ())] :=
      congrArg (fun r => [Outcome.changed r]) (congrArg Prod.snd hc)
    rw [htree] at hrun hreflects
    rw [hchanged, hanswer a hreflects] at hrun
    exact congrArg Prod.fst hrun
  rw [hstep _ apply_writeCore, hstep _ apply_addUi, hstep _ (apply_removeAll _)]
  · rfl
  · intro a ha
    exact (ha.of_nothing read_removed).trans (by decide +kernel)
  · intro a ha
    exact (ha.of_text _ _ (read_treeWith _) (Text.decode?_toUTF8 _)).trans (by decide +kernel)
  · intro a ha
    exact (ha.of_text _ _ (read_treeWith _) (Text.decode?_toUTF8 _)).trans (by decide +kernel)

end ModuleGraph

import ModuleGraph.Proofs.Accounting
import ModuleGraph.Proofs.Worklist

/-!
# Paths outside the parent

Each module that contributes to a resolution is checked against its parent when it is discovered.
The check only adds warnings: one for each own path that lies within no path of the parent, where
the parent loads. A traversal that leaves the check out finds the same paths and gives the other
warnings.
-/

namespace ModuleGraph

open Resolution

/-- The warning tells of a path outside the paths of the parent. -/
def Warning.leavesParent : Warning → Bool
  | pathOutsideParent .. => true
  | _ => false

variable {load : String → Option Module} {m : Module}

/-- The parent loads, and the path lies within none of its paths. -/
def OutsideParent (load : String → Option Module) (parent path : String) : Prop :=
  ∃ p ∈ load parent, ∀ q ∈ p.paths, Path.isWithin path q = false

instance (load : String → Option Module) (parent path : String) :
    Decidable (OutsideParent load parent path) :=
  inferInstanceAs (Decidable (∃ p ∈ load parent, ∀ q ∈ p.paths, Path.isWithin path q = false))

/-- One warning for each own path outside the parent, if the name has a parent. -/
def strayWarnings (load : String → Option Module) (m : Module) : List Warning :=
  m.parent?.toList.flatMap fun parent =>
    (m.paths.filter (OutsideParent load parent ·)).map (.pathOutsideParent m.name parent ·)

theorem outsideParent_of_load {parent path : String} {p : Module} (h : load parent = some p) :
    OutsideParent load parent path ↔ Path.belongsTo path p.paths = false := by
  simp [OutsideParent, h, Path.belongsTo]

theorem strayWarnings_eq_nil (h : m.parent?.bind load = none) : strayWarnings load m = [] := by
  unfold strayWarnings
  cases hp : m.parent? with
  | none => rfl
  | some parent =>
    have hl : load parent = none := by simpa [hp] using h
    have hnone : m.paths.filter (OutsideParent load parent ·) = [] := by
      simp [OutsideParent, hl]
    simp [hnone]

theorem parentWarnings_eq_strayWarnings
    (named : ∀ {x : String} {m : Module}, load x = some m → m.name = x) (m : Module) :
    parentWarnings load m = strayWarnings load m := by
  unfold parentWarnings
  split
  · rename_i h
    exact (strayWarnings_eq_nil h).symm
  · rename_i p h
    obtain ⟨parent, hp, hl⟩ := Option.bind_eq_some_iff.1 h
    have hsame : (m.paths.filter fun path => !Path.belongsTo path p.paths) =
        m.paths.filter (OutsideParent load parent ·) := by
      refine List.filter_congr fun path _ => ?_
      simp [outsideParent_of_load hl]
    rw [hsame, named hl, strayWarnings, hp, Option.toList_some, List.flatMap_singleton]

theorem leavesParent_of_mem_strayWarnings {w : Warning} (h : w ∈ strayWarnings load m) :
    w.leavesParent := by
  obtain ⟨parent, -, h⟩ := List.mem_flatMap.1 h
  obtain ⟨path, -, rfl⟩ := List.mem_map.1 h
  rfl

/-! ### The check along the traversal -/

namespace Resolution

/-- What a traversal knows that checks each module when it discovers it. -/
structure Context where
  visited : List String
  paths : List String
  warnings : List Warning

namespace Context

variable {check : Module → List Warning} {c : Context}

def warn (c : Context) (warning : Warning) : Context :=
  { c with warnings := c.warnings ++ [warning] }

/-- Checks a module and adds its paths. -/
def discover (check : Module → List Warning) (c : Context) (m : Module) : Context where
  visited := c.visited
  paths := Worklist.addPaths c.paths m.paths
  warnings := c.warnings ++ check m

/-- Visits a name, with the check and the warnings on the way; `room` is the number of levels left,
the one of the name included. -/
def visit (check : Module → List Warning) (load : String → Option Module) :
    Nat → String → Context → String → Context
  | 0, referrer, c, name =>
    if name ∈ c.visited then c.warn (.circularDependency referrer name)
    else c.warn (.depthExceeded name (maxDepth + 1))
  | room + 1, referrer, c, name =>
    if name ∈ c.visited then c.warn (.circularDependency referrer name)
    else
      let marked := { c with visited := name :: c.visited }
      match load name with
      | none => marked.warn (.missingDependency referrer name)
      | some m => m.dependsOn.foldl (visit check load room m.name) (marked.discover check m)

/-- The warnings of a visit that checks what it expands. -/
def told (check : Module → List Warning) : Visit → List Warning
  | .expanded m _ => check m
  | v => v.warning?.toList

/-- What some visits make of a context. -/
def after (check : Module → List Warning) (c : Context) (r : List Visit × List String) :
    Context where
  visited := r.2
  paths := Worklist.addPaths c.paths (r.1.flatMap Visit.paths)
  warnings := c.warnings ++ r.1.flatMap (told check)

theorem warn_eq_after {v : Visit} {w : Warning} (hv : v.warning? = some w) (seen : List String) :
    ({ c with visited := seen } : Context).warn w = c.after check ([v], seen) := by
  cases v <;> cases hv <;> simp [warn, after, told, Visit.warning?, Visit.paths, Worklist.addPaths]

theorem after_append (vs ws : List Visit) (seen seen' : List String) :
    (c.after check (vs, seen)).after check (ws, seen') = c.after check (vs ++ ws, seen') := by
  simp [after, Worklist.addPaths_append]

theorem after_expanded (m : Module) (k : Nat) (vs : List Visit) (seen seen' : List String) :
    (({ c with visited := seen } : Context).discover check m).after check (vs, seen') =
      c.after check (.expanded m k :: vs, seen') := by
  simp [after, discover, Worklist.addPaths_append, Visit.paths, told]

theorem foldl_visit {room : Nat} {referrer : String}
    (h : ∀ c name, visit check load room referrer c name =
      c.after check (Resolution.visit load room referrer c.visited name))
    (names : List String) (c : Context) :
    names.foldl (visit check load room referrer) c =
      c.after check (visitAll (Resolution.visit load room referrer) c.visited names) := by
  induction names generalizing c with
  | nil => simp [visitAll, after, Worklist.addPaths]
  | cons name names ih =>
    rw [List.foldl_cons, ih, h, visitAll]
    exact after_append _ _ _ _

/-- The context grows by what the visits below the name tell. -/
theorem visit_eq_after (check : Module → List Warning) (load : String → Option Module) (room : Nat)
    (referrer : String) (c : Context) (name : String) :
    visit check load room referrer c name =
      c.after check (Resolution.visit load room referrer c.visited name) := by
  -- On the levels left, as the visits themselves.
  induction room generalizing referrer c name with
  | zero =>
    by_cases hs : name ∈ c.visited
    · simp only [visit, Resolution.visit, hs, if_true]
      exact warn_eq_after rfl _
    · simp only [visit, Resolution.visit, hs, if_false]
      exact warn_eq_after rfl _
  | succ room ih =>
    by_cases hs : name ∈ c.visited
    · simp only [visit, Resolution.visit, hs, if_true]
      exact warn_eq_after rfl _
    cases hl : load name with
    | none =>
      simp only [visit, Resolution.visit, hs, if_false, hl]
      exact warn_eq_after rfl _
    | some m =>
      simp only [visit, Resolution.visit, hs, if_false, hl]
      rw [foldl_visit (ih m.name)]
      exact after_expanded m _ _ _ _

/-- The two kinds of warnings that a visit tells, where the check tells of stray paths only. -/
theorem filter_told (hc : ∀ m, ∀ w ∈ check m, w.leavesParent) (v : Visit) :
    (told check v).filter Warning.leavesParent = (v.expansion?.map fun x => check x.1).getD [] ∧
    (told check v).filter (!·.leavesParent) = told (fun _ => []) v := by
  cases v with
  | repeated | tooDeep | missing => exact ⟨rfl, rfl⟩
  | expanded m k =>
    refine ⟨List.filter_eq_self.2 (hc m), List.filter_eq_nil_iff.2 fun w hw => ?_⟩
    simp [hc m w hw]

theorem told_parentWarnings (load : String → Option Module) :
    told (parentWarnings load) = Visit.warnings load := by
  funext v
  cases v <;> rfl

end Context

end Resolution

/-- A resolution whose traversal makes the given check on each module that contributes. -/
def resolveChecking (check : Module → List Warning) (d : Definitions) (target : Module) :
    Resolution :=
  let start := Context.discover check ⟨[target.name], [], []⟩ target
  let reached := target.dependsOn.foldl (Context.visit check d.load maxDepth target.name) start
  ⟨target.name, reached.paths, reached.warnings⟩

theorem resolveChecking_eq (check : Module → List Warning) (d : Definitions) (t : Module) :
    resolveChecking check d t = ⟨t.name, (resolve d t).paths,
      check t ++ (visits d.load t).flatMap (Context.told check)⟩ := by
  have hpaths : Worklist.addPaths (Worklist.addPaths [] t.paths)
      ((visits d.load t).flatMap Visit.paths) = (resolve d t).paths := by
    rw [← Worklist.addPaths_append, Worklist.addPaths_eq]
    rfl
  rw [resolveChecking, Context.foldl_visit (Context.visit_eq_after check d.load maxDepth t.name),
    ← hpaths]
  rfl

/-- The warnings about stray paths are those of the target and of the expanded modules in the order
of their discovery, one for each own path that lies outside a parent that loads. They are what the
check along the traversal adds: without it the paths are the same, and so are the other warnings. -/
theorem parent_check_only_adds_warnings (d : Definitions) (t : Module) :
    (resolve d t).warnings.filter Warning.leavesParent =
      ((expansions d.load t).map Prod.fst).flatMap (strayWarnings d.load) ∧
    (∀ m : Module, m.parent?.bind d.load = none → strayWarnings d.load m = []) ∧
    resolveChecking (strayWarnings d.load) d t = resolve d t ∧
    resolveChecking (fun _ => []) d t =
      ⟨t.name, (resolve d t).paths, (resolve d t).warnings.filter (!·.leavesParent)⟩ := by
  have hcheck : parentWarnings d.load = strayWarnings d.load :=
    funext (parentWarnings_eq_strayWarnings Definitions.name_of_load)
  have hall : resolveChecking (strayWarnings d.load) d t = resolve d t := by
    rw [← hcheck, resolveChecking_eq, Context.told_parentWarnings]
    rfl
  have hwarnings : (resolve d t).warnings = strayWarnings d.load t ++
      (visits d.load t).flatMap (Context.told (strayWarnings d.load)) := by
    rw [← hall, resolveChecking_eq]
  have hstray : ∀ m, ∀ w ∈ strayWarnings d.load m, w.leavesParent :=
    fun m w => leavesParent_of_mem_strayWarnings
  refine ⟨?_, fun m => strayWarnings_eq_nil, hall, ?_⟩
  · rw [hwarnings, List.filter_append, List.filter_eq_self.2 (hstray t), List.filter_flatMap,
      flatMap_eq_of_expansion? fun v => (Context.filter_told hstray v).1, expansions,
      List.map_cons, List.flatMap_cons, List.flatMap_map]
  · have hnone : (strayWarnings d.load t).filter (!·.leavesParent) = [] :=
      List.filter_eq_nil_iff.2 fun w hw => by simp [hstray t w hw]
    rw [resolveChecking_eq, hwarnings, List.filter_append, hnone, List.filter_flatMap]
    simp only [(Context.filter_told hstray _).2]

/-! ### A path beside the parent -/

def visitor : Module :=
  { name := "app", paths := ["src/app"], dependsOn := ["team/ui", "lone/x"] }

def lone : Module := { name := "lone/x", paths := ["vendor"], dependsOn := ["team"] }

/-- `team/ui` declares `teamwork/ui` twice, which only looks as if it lay in `team`; no module is
named `lone`. -/
def stray : Definitions := .ofModules
  [visitor, { name := "team", paths := ["team"] },
    { name := "team/ui", paths := ["teamwork/ui", "team/ui", "teamwork/ui"], dependsOn := ["app"] },
    lone]

theorem stray_tells_each_path :
    stray.load "app" = some visitor ∧ stray.load "lone/x" = some lone ∧
      (resolve stray visitor).warnings.filter Warning.leavesParent =
        [.pathOutsideParent "team/ui" "team" "teamwork/ui",
          .pathOutsideParent "team/ui" "team" "teamwork/ui"] ∧
      lone.parent?.bind stray.load = none ∧ strayWarnings stray.load lone = [] := by
  obtain ⟨hfilter, hnone, -⟩ := parent_check_only_adds_warnings stray visitor
  have hlone : lone.parent?.bind stray.load = none := by decide +kernel
  have hstray : ((expansions stray.load visitor).map Prod.fst).flatMap (strayWarnings stray.load) =
      [.pathOutsideParent "team/ui" "team" "teamwork/ui",
        .pathOutsideParent "team/ui" "team" "teamwork/ui"] := by
    decide +kernel
  exact ⟨by decide +kernel, by decide +kernel, hfilter.trans hstray, hlone, hnone lone hlone⟩

end ModuleGraph

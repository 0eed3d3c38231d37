import ModuleGraph.Proofs.Classifying
import ModuleGraph.Proofs.Inheritance
import ModuleGraph.Proofs.LineFeed
import ModuleGraph.Proofs.SparsePattern

/-!
# Lines of reports

A report as a text has its entries joined by line feeds, and an entry that holds a line feed takes up
several lines. The lines of a resolution or of a plan are its entries exactly if no path in it holds
one, and then the entries can be read off them. A declared path holds a line feed only where its
definition escapes one.
-/

namespace ModuleGraph

namespace Report

variable {entry : String} {entries : List String}

def linesOfEntry (entry : String) : List String :=
  (Text.splitAt '\n' entry.toList).map String.ofList

theorem linesOfEntry_eq_singleton (h : '\n' ∉ entry.toList) : linesOfEntry entry = [entry] := by
  rw [linesOfEntry, Text.splitAt_eq_splitOn, List.splitOn_eq_singleton h, List.map_singleton,
    String.ofList_toList]

theorem feed_notMem_of_mem_linesOfEntry {line : String} (h : line ∈ linesOfEntry entry) :
    '\n' ∉ line.toList := by
  obtain ⟨part, hpart, rfl⟩ := List.mem_map.1 h
  rw [String.toList_ofList]
  exact Text.notMem_of_mem_splitAt hpart

/-- Entries are their own lines exactly if none of them holds a line feed. -/
theorem flatMap_linesOfEntry_eq_self_iff :
    entries.flatMap linesOfEntry = entries ↔ ∀ e ∈ entries, '\n' ∉ e.toList := by
  constructor
  · intro h e he
    rw [← h] at he
    obtain ⟨_, -, he⟩ := List.mem_flatMap.1 he
    exact feed_notMem_of_mem_linesOfEntry he
  · intro h
    have hall : entries.map linesOfEntry = entries.map (fun e => [e]) :=
      List.map_congr_left fun e he => linesOfEntry_eq_singleton (h e he)
    rw [List.flatMap_def, hall, ← List.flatMap_def, List.flatMap_singleton']

theorem joinLines_ne_empty {es : List String} (h : entry ≠ "") : joinLines (entry :: es) ≠ "" := by
  intro hempty
  cases es with
  | nil => exact h (by simpa [joinLines] using hempty)
  | cons e es =>
    rw [joinLines, String.intercalate_cons_cons, String.append_assoc] at hempty
    exact h (String.append_eq_empty_iff.1 hempty).1

theorem linesOfEntry_joinLines (hne : entries ≠ []) :
    linesOfEntry (joinLines entries) = entries.flatMap linesOfEntry := by
  induction entries with
  | nil => exact absurd rfl hne
  | cons e es ih =>
    cases es with
    | nil => simp [joinLines]
    | cons e' es =>
      have htext : (joinLines (e :: e' :: es)).toList =
          e.toList ++ '\n' :: (joinLines (e' :: es)).toList := by
        simp [joinLines, String.intercalate_cons_cons]
      rw [List.flatMap_cons, ← ih (List.cons_ne_nil _ _), linesOfEntry, htext, Text.splitAt_append,
        List.map_append]
      rfl

/-- The lines of a report are those of its entries, one entry after the other. -/
theorem linesOf_joinLines_eq (h : entry ≠ "") (es : List String) :
    linesOf (joinLines (entry :: es)) = (entry :: es).flatMap linesOfEntry := by
  rw [linesOf, if_neg (joinLines_ne_empty h), ← linesOfEntry_joinLines (List.cons_ne_nil _ _)]
  rfl

/-- What the lines of a report with these entries are, some paths among what they show. -/
structure CutsInto (report : String) (entries paths : List String) : Prop where
  /-- Each entry takes up the lines it is broken into, one entry after the other. -/
  lines : linesOf report = entries.flatMap linesOfEntry
  entries_iff : linesOf report = entries ↔ ∀ p ∈ paths, '\n' ∉ p.toList

theorem cutsInto_joinLines {es paths : List String} (h : entry ≠ "")
    (hfeed : (∀ e ∈ entry :: es, '\n' ∉ e.toList) ↔ ∀ p ∈ paths, '\n' ∉ p.toList) :
    CutsInto (joinLines (entry :: es)) (entry :: es) paths := by
  have hlines := linesOf_joinLines_eq h es
  refine ⟨hlines, ?_⟩
  rw [hlines, flatMap_linesOfEntry_eq_self_iff, hfeed]

theorem feed_notMem_map_iff {f : String → String} {paths : List String}
    (hf : ∀ p, '\n' ∈ (f p).toList ↔ '\n' ∈ p.toList) {first : String} (hfirst : '\n' ∉ first.toList) :
    (∀ e ∈ first :: paths.map f, '\n' ∉ e.toList) ↔ ∀ p ∈ paths, '\n' ∉ p.toList := by
  simp only [List.forall_mem_cons, List.forall_mem_map, hf]
  exact and_iff_right hfirst

/-- What a line of a plan shows behind a word. -/
def behind? (word line : String) : Option String :=
  if word.toList.isPrefixOf line.toList then some (String.ofList (line.toList.drop word.length))
  else none

theorem behind?_append (word entry : String) : behind? word (word ++ entry) = some entry := by
  have hprefix : word.toList.isPrefixOf (word ++ entry).toList = true := by simp
  rw [behind?, if_pos hprefix, String.toList_append, ← String.length_toList, List.drop_left,
    String.ofList_toList]

theorem behind?_exclude (entry : String) : behind? "include " ("exclude " ++ entry) = none := by
  rw [behind?, if_neg]
  simp

/-- The path that a pattern takes out of what is shown. -/
def hiddenBy? (line : String) : Option String :=
  (SparsePattern.exclusionText? line).map String.ofList

theorem hiddenBy?_exclusion (path : String) : hiddenBy? (Plan.exclusion path) = some path := by
  rw [hiddenBy?, SparsePattern.exclusionText?_exclusion, Option.map_some, String.ofList_toList]

/-- The paths of a plan, read off the lines of its two texts. -/
structure PlanReadsBack (p : Plan) (patterns raw : String) : Prop where
  hidden : (linesOf patterns).filterMap hiddenBy? = p.hidden
  rawHidden : (linesOf raw).filterMap (behind? "exclude ") = p.hidden
  rawShown : (linesOf raw).filterMap (behind? "include ") = p.shown

end Report

open Report

variable {source text n : String} {d : Definitions} {m : Module}

/-- A resolution has a path, and its first one says something. -/
theorem paths_resolve_eq_cons (h : d.load n = some m) :
    ∃ q qs, (resolve d m).paths = q :: qs ∧ q ≠ "" := by
  have hne : m.paths ≠ [] := by
    rw [(Definitions.paths_and_flags_of_load h).1]
    exact Definitions.ownPaths_ne_nil_of_load h
  obtain ⟨p, hp⟩ := List.exists_mem_of_ne_nil _ hne
  have hmem : p ∈ (resolve d m).paths := mem_paths_resolve_of_own hp
  obtain ⟨q, qs, hpaths⟩ := List.exists_cons_of_ne_nil (List.ne_nil_of_mem hmem)
  obtain ⟨s, hs⟩ := exists_normalize_of_needed h (.inl (hpaths ▸ List.mem_cons_self : q ∈ _))
  exact ⟨q, qs, hpaths, fun he => (Path.of_normalize hs).1 (he ▸ rfl)⟩

theorem cutsInto_resolution (h : d.load n = some m) :
    CutsInto (resolution (resolve d m) .text) (resolve d m).paths (resolve d m).paths := by
  obtain ⟨q, qs, hpaths, hq⟩ := paths_resolve_eq_cons h
  rw [resolution, hpaths]
  exact cutsInto_joinLines hq Iff.rfl

theorem cutsInto_patterns (d : Definitions) (m : Module) :
    CutsInto (Report.plan (plan d m) false .text)
      (Plan.everything :: (plan d m).hidden.map Plan.exclusion) (plan d m).hidden := by
  refine cutsInto_joinLines (by decide) (feed_notMem_map_iff (fun p => ?_) (by decide))
  simp [Plan.exclusion, ToString.toString]

theorem cutsInto_raw (d : Definitions) (m : Module) :
    CutsInto (Report.plan (plan d m) true .text)
      ("include /*" :: (plan d m).hidden.map ("exclude " ++ ·)) (plan d m).hidden := by
  refine cutsInto_joinLines (by decide) (feed_notMem_map_iff (fun p => ?_) (by decide))
  simp

/-- Where no hidden path holds a line feed, both texts of a plan tell its paths. -/
theorem planReadsBack (h : ∀ p ∈ (plan d m).hidden, '\n' ∉ p.toList) :
    PlanReadsBack (plan d m) (Report.plan (plan d m) false .text)
      (Report.plan (plan d m) true .text) := by
  have hraw := (cutsInto_raw d m).entries_iff.2 h
  have hfirst : behind? "include " "include /*" = some Plan.everything := by decide +kernel
  refine ⟨?_, ?_, ?_⟩
  · rw [(cutsInto_patterns d m).entries_iff.2 h,
      List.filterMap_cons_none (by decide +kernel : hiddenBy? Plan.everything = none)]
    simp [List.filterMap_map, hiddenBy?_exclusion]
  · rw [hraw, List.filterMap_cons_none (by decide +kernel : behind? "exclude " "include /*" = none)]
    simp [List.filterMap_map, behind?_append]
  · rw [hraw, List.filterMap_cons_some hfirst]
    simp [List.filterMap_map, behind?_exclude, plan]

theorem feed_notMem_hidden (hparse : Definitions.parse source text = .ok d)
    (hescape : ¬Definitions.feedEscape <:+: text.toList) (hload : d.load n = some m) {p : String}
    (hp : p ∈ (plan d m).hidden) : '\n' ∉ p.toList := by
  obtain ⟨x, o, ho, hp⟩ := exists_load_of_mem_foreignPaths ((mem_hidden_iff hload).1 hp).1
  exact Definitions.feed_notMem_path hparse hescape ho hp

/-- The lines of a resolution and of both texts of a plan are their entries exactly if no path of
them holds a line feed, and then a plan can be read off either text. No path holds one if the
definitions write none as an escape. -/
theorem report_lines_are_entries_iff (hparse : Definitions.parse source text = .ok d)
    (hload : d.load n = some m) :
    CutsInto (resolution (resolve d m) .text) (resolve d m).paths (resolve d m).paths ∧
    CutsInto (Report.plan (plan d m) false .text)
      (Plan.everything :: (plan d m).hidden.map Plan.exclusion) (plan d m).hidden ∧
    CutsInto (Report.plan (plan d m) true .text)
      ("include /*" :: (plan d m).hidden.map ("exclude " ++ ·)) (plan d m).hidden ∧
    ((∀ p ∈ (plan d m).hidden, '\n' ∉ p.toList) →
      PlanReadsBack (plan d m) (Report.plan (plan d m) false .text)
        (Report.plan (plan d m) true .text)) ∧
    (¬Definitions.feedEscape <:+: text.toList →
      ∀ p, p ∈ (resolve d m).paths ∨ p ∈ (plan d m).hidden → '\n' ∉ p.toList) := by
  refine ⟨cutsInto_resolution hload, cutsInto_patterns d m, cutsInto_raw d m, planReadsBack, ?_⟩
  rintro hescape p (hp | hp)
  · obtain ⟨x, o, ho, hp⟩ := exists_load_of_mem_resolved hload hp
    exact Definitions.feed_notMem_path hparse hescape ho hp
  · exact feed_notMem_hidden hparse hescape hload hp

/-- Values in quotes, with a comment sign, joined over lines, and with escapes. -/
def spelledOut : String :=
  "[module \"app\"]\n\tpath = \"src/a # b\"/c\n\tpath = docs/\\\nguide # joined\n" ++
    "[module \"tools\"]\n\tpath = \"tools\\t\\\"x\\\"\\\\ y\"\n"

def spelledOutModules : Definitions :=
  ⟨"<inline>", [⟨"module", some "app", [⟨"path", some "src/a # b/c"⟩, ⟨"path", some "docs/guide"⟩]⟩,
    ⟨"module", some "tools", [⟨"path", some "tools\t\"x\"\\ y"⟩]⟩]⟩

theorem spelled_out_lines_are_entries :
    ∃ m, Definitions.parse "<inline>" spelledOut = .ok spelledOutModules ∧
      spelledOutModules.load "app" = some m ∧
      linesOf (resolution (resolve spelledOutModules m) .text) = ["src/a # b/c", "docs/guide"] ∧
      linesOf (Report.plan (plan spelledOutModules m) false .text) =
        ["/*", "!/tools\t\"x\"\\ y/"] ∧
      linesOf (Report.plan (plan spelledOutModules m) true .text) =
        ["include /*", "exclude tools\t\"x\"\\ y"] := by
  have hparse : Definitions.parse "<inline>" spelledOut = .ok spelledOutModules := by
    decide +kernel
  have hload : spelledOutModules.load "app" =
      some { name := "app", paths := ["src/a # b/c", "docs/guide"] } := by decide +kernel
  obtain ⟨hpaths, hpatterns, hraw, -, hfeed⟩ := report_lines_are_entries_iff hparse hload
  have hplain := hfeed (by decide +kernel)
  refine ⟨_, hparse, hload, ?_, ?_, ?_⟩
  · rw [hpaths.entries_iff.2 fun p hp => hplain p (.inl hp)]
    decide +kernel
  · rw [hpatterns.entries_iff.2 fun p hp => hplain p (.inr hp)]
    decide +kernel
  · rw [hraw.entries_iff.2 fun p hp => hplain p (.inr hp)]
    decide +kernel

/-- In a path of each module an escape stands for a line feed. -/
def brokenLines : String :=
  "[module \"app\"]\n\tpath = docs\n\tpath = \"src\\nlib\"\n[module \"web\"]\n\tpath = \"web\\nold\"\n"

def brokenModules : Definitions :=
  ⟨"<inline>", [⟨"module", some "app", [⟨"path", some "docs"⟩, ⟨"path", some "src\nlib"⟩]⟩,
    ⟨"module", some "web", [⟨"path", some "web\nold"⟩]⟩]⟩

/-- The second path of `app` is shown on two lines, and so is the one path that the plan hides. -/
theorem escaped_feed_breaks_lines :
    Definitions.parse "<inline>" brokenLines = .ok brokenModules ∧
    ∃ m, brokenModules.load "app" = some m ∧
      (resolve brokenModules m).paths = ["docs", "src\nlib"] ∧
      linesOf (resolution (resolve brokenModules m) .text) = ["docs", "src", "lib"] ∧
      (plan brokenModules m).hidden = ["web\nold"] ∧
      linesOf (Report.plan (plan brokenModules m) false .text) = ["/*", "!/web", "old/"] ∧
      linesOf (Report.plan (plan brokenModules m) true .text) =
        ["include /*", "exclude web", "old"] := by
  refine ⟨by decide +kernel, { name := "app", paths := ["docs", "src\nlib"] }, ?_⟩
  decide +kernel

end ModuleGraph

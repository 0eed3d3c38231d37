import ModuleGraph.Module
import Mathlib.Logic.Relation

/-!
# Dependency routes

`Route load x ys z` follows dependencies from `x` to `z`. The list `ys` holds the names met after
`x`, the last of them `z`; its length is the number of dependencies followed.
-/

namespace ModuleGraph

variable {load : String → Option Module} {x y z : String} {ys zs : List String}

/-- The module that `x` names has `y` among its dependencies. -/
def DependsOn (load : String → Option Module) (x y : String) : Prop :=
  ∃ m, load x = some m ∧ y ∈ m.dependsOn

inductive Route (load : String → Option Module) : String → List String → String → Prop where
  | nil (x : String) : Route load x [] x
  | cons {x y z : String} {ys : List String} :
      DependsOn load x y → Route load y ys z → Route load x (y :: ys) z

namespace Route

theorem trans (hy : Route load x ys y) (hz : Route load y zs z) :
    Route load x (ys ++ zs) z := by
  induction hy with
  | nil => exact hz
  | cons h _ ih => exact .cons h (ih hz)

theorem snoc (hy : Route load x ys y) (h : DependsOn load y z) :
    Route load x (ys ++ [z]) z :=
  hy.trans (.cons h (.nil z))

theorem reflTransGen (h : Route load x ys z) :
    Relation.ReflTransGen (DependsOn load) x z := by
  induction h with
  | nil => exact .refl
  | cons h _ ih => exact .head h ih

theorem source_loads {m : Module} (h : Route load x ys z) (hz : load z = some m) :
    ∃ m', load x = some m' := by
  cases h with
  | nil => exact ⟨m, hz⟩
  | cons h _ =>
    obtain ⟨m', hl, -⟩ := h
    exact ⟨m', hl⟩

end Route

theorem reflTransGen_iff_exists_route :
    Relation.ReflTransGen (DependsOn load) x z ↔ ∃ ys, Route load x ys z := by
  constructor
  · intro h
    induction h with
    | refl => exact ⟨[], .nil x⟩
    | tail _ hyz ih =>
      obtain ⟨ys, hy⟩ := ih
      exact ⟨_, hy.snoc hyz⟩
  · rintro ⟨ys, h⟩
    exact h.reflTransGen

end ModuleGraph

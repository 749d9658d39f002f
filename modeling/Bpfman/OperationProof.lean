import Bpfman.Operation

/-!
# What a plan does

* `Completes` — a run of nodes none of which stops the plan, with the undo groups it collects;
* `runPlan_outcome` — a plan succeeds by completing and undoes nothing; it fails at the first `Do`
  or `Produce` node that returns an error, and the state it then leaves is that of the failing node
  with the collected groups undone, latest first;
* a plan whose completed nodes are inverted by their undo groups leaves the state it started from.
-/

namespace Bpfman

open Fallible Proc List

variable {β : Type} {nodes pre post : List (Node β)} {n : Node β} {b b₁ b' : β} {w w₁ w' : World}
  {groups : List (List (M Unit))} {err : Err}

/-- The nodes run from bindings `b` in world `w` to `b'` in `w'` and none of them stops the plan: a
`Try` node may fail, a `Do` or `Produce` node succeeds and leaves its undo group. The groups are in
the order the nodes complete in. -/
inductive Completes : List (Node β) → β → World → β → World → List (List (M Unit)) → Prop
  | nil (b : β) (w : World) : Completes [] b w b w []
  | tried {n : Node β} {ns : List (Node β)} {b b' : β} {w w' : World} {groups}
      (h : n.flavour = .tryNode) (rest : Completes ns b (n.exec b w).state b' w' groups) :
      Completes (n :: ns) b w b' w' groups
  | ran {n : Node β} {ns : List (Node β)} {b b₁ b' : β} {w w₁ w' : World} {groups}
      (h : n.flavour ≠ .tryNode) (run : n.exec b w = .ok b₁ w₁)
      (rest : Completes ns b₁ w₁ b' w' groups) :
      Completes (n :: ns) b w b' w' (n.undo b₁ :: groups)

/-- A plan whose nodes complete up to `n` goes on from there, and undoes what they did if the rest
fails. -/
theorem runPlan_append (h : Completes pre b w b₁ w₁ groups) :
    runPlan (pre ++ post) b w =
      match runPlan post b₁ w₁ with
      | .ok b' w' => .ok b' w'
      | .err err w' => .err err (groups.reverse.foldl undoGroup w') := by
  induction h with
  | nil b w =>
    simp only [nil_append, reverse_nil, foldl_nil]
    cases runPlan post b w <;> rfl
  | tried h rest ih => rw [cons_append, runPlan_try _ _ h, ih]
  | ran h run rest ih =>
    rw [cons_append, runPlan_cons _ _ h, bind_of_ok run]
    simp only [onErr, ih, forEach_undo]
    cases runPlan post _ _ with
    | ok b' w' => rfl
    | err er w' => simp

theorem runPlan_of_completes (h : Completes nodes b w b' w' groups) :
    runPlan nodes b w = .ok b' w' := by
  have := @runPlan_append _ _ [] _ _ _ _ _ h
  rwa [append_nil] at this

/-- A plan completes, or stops at a first node that is not a `Try` node and fails. -/
theorem completes_or_stops (nodes : List (Node β)) (b : β) (w : World) :
    (∃ b' w' groups, Completes nodes b w b' w' groups) ∨
      ∃ pre n post b₁ w₁ groups err w2, nodes = pre ++ n :: post ∧
        Completes pre b w b₁ w₁ groups ∧ n.flavour ≠ .tryNode ∧ n.exec b₁ w₁ = .err err w2 := by
  induction nodes generalizing b w with
  | nil => exact .inl ⟨b, w, [], .nil b w⟩
  | cons n ns ih =>
    by_cases ht : n.flavour = .tryNode
    · rcases ih b (n.exec b w).state with ⟨b', w', gs, h⟩ |
        ⟨pre, m, post, b₁, w₁, gs, er, w2, rfl, h, hm, he⟩
      · exact .inl ⟨b', w', gs, .tried ht h⟩
      · exact .inr ⟨n :: pre, m, post, b₁, w₁, gs, er, w2, rfl, .tried ht h, hm, he⟩
    · cases hn : n.exec b w with
      | err er w2 => exact .inr ⟨[], n, ns, b, w, [], er, w2, rfl, .nil b w, ht, hn⟩
      | ok b0 w0 =>
        rcases ih b0 w0 with ⟨b', w', gs, h⟩ | ⟨pre, m, post, b₁, w₁, gs, er, w2, rfl, h, hm, he⟩
        · exact .inl ⟨b', w', _, .ran ht hn h⟩
        · exact .inr ⟨n :: pre, m, post, b₁, w₁, _, er, w2, rfl, .ran ht hn h, hm, he⟩

/-- A plan that stops at `n` ends in the error of `n`, with the groups of the nodes before it undone
from the state `n` left. -/
theorem runPlan_of_stops {w2 : World} (h : Completes pre b w b₁ w₁ groups)
    (hn : n.flavour ≠ .tryNode) (he : n.exec b₁ w₁ = .err err w2) :
    runPlan (pre ++ n :: post) b w = .err err (groups.reverse.foldl undoGroup w2) := by
  rw [runPlan_append h, runPlan_cons n post hn, bind_of_err he]

/-- Along the run of the plan from `b` and `w`, the undo group of a node that completes takes the
world back to where the node started, and a failing node and a `Try` node leave it as it was. -/
structure Reversible (nodes : List (Node β)) (b : β) (w : World) : Prop where
  completed : ∀ {pre n post b₁ w₁ groups b₂ w₂}, nodes = pre ++ n :: post →
    Completes pre b w b₁ w₁ groups → n.flavour ≠ .tryNode → n.exec b₁ w₁ = .ok b₂ w₂ →
    undoGroup w₂ (n.undo b₂) = w₁
  failing : ∀ {pre n post b₁ w₁ groups err w₂}, nodes = pre ++ n :: post →
    Completes pre b w b₁ w₁ groups → n.flavour ≠ .tryNode → n.exec b₁ w₁ = .err err w₂ → w₂ = w₁
  tried : ∀ {pre n post b₁ w₁ groups}, nodes = pre ++ n :: post →
    Completes pre b w b₁ w₁ groups → n.flavour = .tryNode → (n.exec b₁ w₁).state = w₁

theorem Reversible.tail_ran {ns : List (Node β)} (hr : Reversible (n :: ns) b w)
    (h : n.flavour ≠ .tryNode) (run : n.exec b w = .ok b₁ w₁) : Reversible ns b₁ w₁ where
  completed heq hc := hr.completed (congrArg (n :: ·) heq) (.ran h run hc)
  failing heq hc := hr.failing (congrArg (n :: ·) heq) (.ran h run hc)
  tried heq hc := hr.tried (congrArg (n :: ·) heq) (.ran h run hc)

theorem Reversible.tail_tried {ns : List (Node β)} (hr : Reversible (n :: ns) b w)
    (h : n.flavour = .tryNode) : Reversible ns b (n.exec b w).state where
  completed heq hc := hr.completed (congrArg (n :: ·) heq) (.tried h hc)
  failing heq hc := hr.failing (congrArg (n :: ·) heq) (.tried h hc)
  tried heq hc := hr.tried (congrArg (n :: ·) heq) (.tried h hc)

/-- The groups a reversible plan collects take it back to its first world. -/
theorem Reversible.undone (hr : Reversible (pre ++ post) b w)
    (h : Completes pre b w b₁ w₁ groups) : groups.reverse.foldl undoGroup w₁ = w := by
  induction h with
  | nil b w => rfl
  | tried h rest ih =>
    exact (ih (hr.tail_tried h)).trans (@Reversible.tried _ _ _ _ hr [] _ _ _ _ _ rfl (.nil _ _) h)
  | ran h run rest ih =>
    rw [reverse_cons, foldl_append, ih (hr.tail_ran h run)]
    exact @Reversible.completed _ _ _ _ hr [] _ _ _ _ _ _ _ rfl (.nil _ _) h run

/-- A plan runs its nodes in order up to the first `Do` or `Produce` node that fails. Without one it
succeeds and undoes nothing. With one it returns the error of that node, later nodes are not run,
and exactly the undo groups of the nodes that completed are run, once each, latest first, whatever
the single actions return. If the groups invert their nodes, the world is then the one the plan
started from. -/
theorem runPlan_outcome (nodes : List (Node β)) (b : β) (w : World) :
    (∀ b' w', runPlan nodes b w = .ok b' w' ↔ ∃ groups, Completes nodes b w b' w' groups) ∧
    (∀ err w', runPlan nodes b w = .err err w' ↔
      ∃ pre n post b₁ w₁ groups w₂, nodes = pre ++ n :: post ∧
        Completes pre b w b₁ w₁ groups ∧ n.flavour ≠ .tryNode ∧ n.exec b₁ w₁ = .err err w₂ ∧
        w' = groups.reverse.foldl undoGroup w₂) ∧
    (Reversible nodes b w → ∀ err w', runPlan nodes b w = .err err w' → w' = w) := by
  have hfail : ∀ err w', runPlan nodes b w = .err err w' →
      ∃ pre n post b₁ w₁ groups w₂, nodes = pre ++ n :: post ∧
        Completes pre b w b₁ w₁ groups ∧ n.flavour ≠ .tryNode ∧ n.exec b₁ w₁ = .err err w₂ ∧
        w' = groups.reverse.foldl undoGroup w₂ := by
    intro err w' h
    rcases completes_or_stops nodes b w with
      ⟨b', w'', gs, hc⟩ | ⟨pre, n, post, b₁, w₁, gs, er, w₂, rfl, hc, hn, he⟩
    · rw [runPlan_of_completes hc] at h
      cases h
    · rw [runPlan_of_stops hc hn he] at h
      obtain ⟨rfl, rfl⟩ := Outcome.err.inj h
      exact ⟨pre, n, post, b₁, w₁, gs, w₂, rfl, hc, hn, he, rfl⟩
  refine ⟨fun b' w' => ⟨fun h => ?_, fun ⟨gs, hc⟩ => runPlan_of_completes hc⟩,
    fun err w' => ⟨hfail err w', ?_⟩, fun hr err w' h => ?_⟩
  · rcases completes_or_stops nodes b w with
      ⟨b'', w'', gs, hc⟩ | ⟨pre, n, post, b₁, w₁, gs, er, w₂, rfl, hc, hn, he⟩
    · rw [runPlan_of_completes hc] at h
      obtain ⟨rfl, rfl⟩ := Outcome.ok.inj h
      exact ⟨gs, hc⟩
    · rw [runPlan_of_stops hc hn he] at h
      cases h
  · rintro ⟨pre, n, post, b₁, w₁, gs, w₂, rfl, hc, hn, he, rfl⟩
    exact runPlan_of_stops hc hn he
  · obtain ⟨pre, n, post, b₁, w₁, gs, w₂, rfl, hc, hn, he, rfl⟩ := hfail err w' h
    rw [hr.failing rfl hc hn he]
    exact hr.undone hc

namespace Sample

/-- Publish the bytecode of program 7, undone by removing it. -/
def publishNode : Node Unit where
  flavour := .doNode
  exec _ := modify fun w => { w with bytecode := insert 7 w.bytecode }
  undo _ := [modify fun w => { w with bytecode := w.bytecode.erase 7 }]

/-- A node that fails. -/
def brokenNode : Node Unit where
  flavour := .doNode
  exec _ := fail (.msg "no space")

theorem split_pair {α : Type} {x y z : α} {pre post : List α} (h : [x, y] = pre ++ z :: post) :
    (pre = [] ∧ z = x) ∨ (pre = [x] ∧ z = y) := by
  cases pre with
  | nil => simp_all
  | cons a pre =>
    cases pre with
    | nil => simp_all
    | cons c pre => simp at h

theorem reversible_publish : Reversible [publishNode, brokenNode] () {} where
  completed heq hc _ run := by
    rcases split_pair heq with ⟨rfl, rfl⟩ | ⟨rfl, rfl⟩
    · cases hc
      cases run
      rfl
    · cases run
  failing heq hc _ run := by
    rcases split_pair heq with ⟨rfl, rfl⟩ | ⟨rfl, rfl⟩
    · cases run
    · cases run
      rfl
  tried heq _ h := by
    rcases split_pair heq with ⟨-, rfl⟩ | ⟨-, rfl⟩ <;> cases h

end Sample

theorem runPlan_outcome_sample :
    ∃ w', runPlan [Sample.publishNode, Sample.brokenNode] () {} = .err (.msg "no space") w' ∧
      w' = {} :=
  ⟨_, rfl, (runPlan_outcome _ _ _).2.2 Sample.reversible_publish _ _ rfl⟩

end Bpfman

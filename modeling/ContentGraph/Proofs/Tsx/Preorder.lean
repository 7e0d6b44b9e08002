import ContentGraph.Proofs.Tsx.Walk
import Mathlib.Data.List.Basic

/-!
# The moves of a walk

A place in a tree is the way to it from the root, by the numbers of the children. The cursors that
recursion lists stand at all places of the tree (`mem_cursors_iff`), in the order of words: parents
before children and siblings left to right (`pairwise_place_cursors`). A walk moves to a first
child, a next sibling or a parent, one move in a round, and so it comes to just these cursors, in
twice as many rounds as there are nodes (`ends_iff`).
-/

namespace ContentGraph.Tsx

/-- A tree has one node more than stand below its root. -/
theorem Node.size_eq (n : Node) : n.size = sizeAll n.children + 1 := by
  obtain ⟨kind, field, span, children⟩ := n
  rw [size, Node.children]

/-- The node at a place below a node. -/
def Node.at? (n : Node) : List Nat → Option Node
  | [] => some n
  | k :: place => n.children[k]?.bind fun child => child.at? place

namespace Cursor

/-! ## Places -/

/-- The way down along some frames. -/
def placeOf (path : List Frame) : List Nat := (path.map (·.before.length)).reverse

/-- The place at which a cursor stands. -/
def place (c : Cursor) : List Nat := placeOf c.path

theorem placeOf_cons (f : Frame) (path : List Frame) :
    placeOf (f :: path) = placeOf path ++ [f.before.length] := by
  unfold placeOf
  rw [List.map_cons, List.reverse_cons]

theorem exists_mem_append_iff {p : Cursor → Prop} {cs ds : List Cursor} :
    (∃ c ∈ cs ++ ds, p c) ↔ (∃ c ∈ cs, p c) ∨ ∃ c ∈ ds, p c := by
  constructor
  · rintro ⟨c, hc, hp⟩
    exact (List.mem_append.1 hc).imp (⟨c, ·, hp⟩) (⟨c, ·, hp⟩)
  · rintro (⟨c, hc, hp⟩ | ⟨c, hc, hp⟩)
    · exact ⟨c, List.mem_append_left _ hc, hp⟩
    · exact ⟨c, List.mem_append_right _ hc, hp⟩

/-- A place below a node is a place in one of its children. -/
theorem at?_cons_eq_some_iff {n m : Node} {k : Nat} {place : List Nat} :
    n.at? (k :: place) = some m
      ↔ ∃ child, n.children[k]? = some child ∧ child.at? place = some m :=
  Option.bind_eq_some_iff

mutual

theorem mem_below_iff {path : List Frame} {place : List Nat} {m : Node} : (n : Node) →
    ((∃ c ∈ below path n, c.place = place ∧ c.node = m)
      ↔ ∃ rest, place = placeOf path ++ rest ∧ n.at? rest = some m)
  | .mk kind field span children => by
      rw [below, List.exists_mem_cons_iff, mem_belowAll_iff]
      constructor
      · rintro (⟨rfl, rfl⟩ | ⟨k, rest, child, hchild, rfl, hm⟩)
        · exact ⟨[], (List.append_nil _).symm, rfl⟩
        · rw [List.length_nil, Nat.zero_add]
          exact ⟨k :: rest, rfl, at?_cons_eq_some_iff.2 ⟨child, hchild, hm⟩⟩
      · rintro ⟨rest, rfl, hm⟩
        cases rest with
        | nil => exact .inl ⟨(List.append_nil _).symm, Option.some.inj hm⟩
        | cons k rest =>
            obtain ⟨child, hchild, hm⟩ := at?_cons_eq_some_iff.1 hm
            refine .inr ⟨k, rest, child, hchild, ?_, hm⟩
            rw [List.length_nil, Nat.zero_add]

theorem mem_belowAll_iff {parent : Node} {path : List Frame} {before : List Node}
    {place : List Nat} {m : Node} : (ns : List Node) →
    ((∃ c ∈ belowAll parent path before ns, c.place = place ∧ c.node = m)
      ↔ ∃ k rest n, ns[k]? = some n ∧ place = placeOf path ++ (before.length + k) :: rest
        ∧ n.at? rest = some m)
  | [] => by simp [belowAll]
  | n :: after => by
      have hfirst (rest : List Nat) : placeOf (⟨parent, before, after⟩ :: path) ++ rest
          = placeOf path ++ before.length :: rest := by
        rw [placeOf_cons, List.append_assoc]
        rfl
      rw [belowAll, exists_mem_append_iff, mem_below_iff n, mem_belowAll_iff after]
      constructor
      · rintro (⟨rest, rfl, hm⟩ | ⟨k, rest, n', hn', rfl, hm⟩)
        · exact ⟨0, rest, n, rfl, hfirst rest, hm⟩
        · refine ⟨k + 1, rest, n', hn', ?_, hm⟩
          rw [List.length_cons, Nat.add_right_comm, Nat.add_assoc]
      · rintro ⟨k, rest, n', hn', rfl, hm⟩
        cases k with
        | zero =>
            obtain rfl := Option.some.inj hn'
            exact .inl ⟨rest, (hfirst rest).symm, hm⟩
        | succ k =>
            refine .inr ⟨k, rest, n', hn', ?_, hm⟩
            rw [List.length_cons, Nat.add_right_comm, Nat.add_assoc]

end

/-- **Places.** The cursors of a tree stand at all its places and nowhere else, each at the node
that is there. -/
theorem mem_cursors_iff {root m : Node} {place : List Nat} :
    (∃ c ∈ cursors root, c.place = place ∧ c.node = m) ↔ root.at? place = some m := by
  refine (mem_below_iff root).trans ⟨?_, fun hm => ⟨place, rfl, hm⟩⟩
  rintro ⟨rest, rfl, hm⟩
  exact hm

mutual

theorem pairwise_place_below (path : List Frame) : (n : Node) →
    (below path n).Pairwise fun c d => c.place < d.place
  | .mk kind field span children => by
      rw [below, List.pairwise_cons]
      refine ⟨fun d hd => ?_, pairwise_place_belowAll _ path [] children⟩
      -- what is below a node stands further down the same way
      obtain ⟨k, rest, -, -, hplace, -⟩ := (mem_belowAll_iff children).1 ⟨d, hd, rfl, rfl⟩
      have hfurther : placeOf path ++ [] < placeOf path ++ (0 + k) :: rest :=
        List.append_left_lt (List.nil_lt_cons _ _)
      rw [List.append_nil] at hfurther
      rw [hplace]
      exact hfurther

theorem pairwise_place_belowAll (parent : Node) (path : List Frame) (before : List Node) :
    (ns : List Node) → (belowAll parent path before ns).Pairwise fun c d => c.place < d.place
  | [] => .nil
  | n :: after => by
      rw [belowAll, List.pairwise_append]
      refine ⟨pairwise_place_below _ n, pairwise_place_belowAll parent path _ after, ?_⟩
      intro c hc d hd
      obtain ⟨rest, hplace, -⟩ := (mem_below_iff n).1 ⟨c, hc, rfl, rfl⟩
      obtain ⟨k, rest', -, -, hplace', -⟩ := (mem_belowAll_iff after).1 ⟨d, hd, rfl, rfl⟩
      rw [hplace, hplace', placeOf_cons, List.append_assoc]
      refine List.append_left_lt (List.cons_lt_cons_iff.2 (.inl ?_))
      show before.length < (n :: before).length + k
      rw [List.length_cons]
      omega

end

/-- **Order.** The cursors of a tree are listed in the order of their places: parents before
children and siblings left to right. -/
theorem pairwise_place_cursors (root : Node) :
    (cursors root).Pairwise fun c d => c.place < d.place :=
  pairwise_place_below [] root

/-! ## Moves -/

/-- Where a walk stands: it has come to a node, or it is done with the node and all below it. -/
inductive Stage
  | arrived (c : Cursor)
  | done (c : Cursor)

/-- A round of a walk: from a node to its first child; from one that is done to the sibling to the
right, else up. -/
def Stage.next? : Stage → Option Stage
  | .arrived c =>
    match c.firstChild? with
    | some d => some (.arrived d)
    | none => some (.done c)
  | .done c =>
    match c.nextSibling? with
    | some d => some (.arrived d)
    | none => c.up?.map .done

/-- A walk visits the nodes that it comes to. -/
def Stage.visited : Stage → List Cursor
  | .arrived c => [c]
  | .done _ => []

/-- From a stage a walk comes to its end in so many rounds, and visits these cursors. -/
inductive Ends : Stage → Nat → List Cursor → Prop
  | last {s : Stage} (h : s.next? = none) : Ends s 1 s.visited
  | round {s s' : Stage} {k : Nat} {cs : List Cursor} (h : s.next? = some s')
      (rest : Ends s' k cs) : Ends s (k + 1) (s.visited ++ cs)

/-- A walk has one end. -/
theorem Ends.unique {s : Stage} {k k' : Nat} {cs cs' : List Cursor} (h : Ends s k cs)
    (h' : Ends s k' cs') : k = k' ∧ cs = cs' := by
  induction h generalizing k' cs' with
  | last hlast =>
      cases h' with
      | last => exact ⟨rfl, rfl⟩
      | round hnext _ => exact nomatch hlast.symm.trans hnext
  | round hnext _ ih =>
      cases h' with
      | last hlast => exact nomatch hlast.symm.trans hnext
      | round hnext' hrest =>
          obtain rfl := Option.some.inj (hnext.symm.trans hnext')
          obtain ⟨rfl, rfl⟩ := ih hrest
          exact ⟨rfl, rfl⟩

/-- The stage at the first of some siblings; behind the last the walk is done with their parent. -/
def Stage.among (parent : Node) (path : List Frame) (before : List Node) : List Node → Stage
  | [] => .done ⟨parent, path⟩
  | n :: after => .arrived ⟨n, ⟨parent, before, after⟩ :: path⟩

/-- A walk that has come to a node goes on to the first of its children. -/
theorem Stage.next?_arrived (n : Node) (path : List Frame) :
    (Stage.arrived ⟨n, path⟩).next? = some (among n path [] n.children) := by
  obtain ⟨kind, field, span, children⟩ := n
  cases children with
  | nil => rfl
  | cons m after => rfl

/-- A walk that is done with a sibling goes on to the one on the right. -/
theorem Stage.next?_done (n parent : Node) (path : List Frame) (before after : List Node) :
    (Stage.done ⟨n, ⟨parent, before, after⟩ :: path⟩).next?
      = some (among parent path (n :: before) after) := by
  cases after with
  | nil => rfl
  | cons m after => rfl

mutual

/-- A walk that has come to a node visits what is below it, and is done with it then. -/
theorem ends_below (path : List Frame) {k : Nat} {cs : List Cursor} : (n : Node) →
    Ends (.done ⟨n, path⟩) k cs →
    Ends (.arrived ⟨n, path⟩) (2 * Node.sizeAll n.children + k + 1) (below path n ++ cs)
  | .mk kind field span children, h => by
      rw [below]
      exact .round (Stage.next?_arrived _ path)
        (ends_belowAll (.mk kind field span children) path [] children h)

/-- A walk that has come to siblings visits what is below them, and is done with their parent
then. -/
theorem ends_belowAll (parent : Node) (path : List Frame) (before : List Node) {k : Nat}
    {cs : List Cursor} : (ns : List Node) → Ends (.done ⟨parent, path⟩) k cs →
    Ends (.among parent path before ns) (2 * Node.sizeAll ns + k)
      (belowAll parent path before ns ++ cs)
  | [], h => by
      rwa [belowAll, Node.sizeAll, Nat.mul_zero, Nat.zero_add]
  | n :: after, h => by
      have hright := ends_belowAll parent path (n :: before) after h
      have hrest := ends_below (⟨parent, before, after⟩ :: path) n
        (.round (Stage.next?_done n parent path before after) hright)
      have hrounds : 2 * Node.sizeAll (n :: after) + k
          = 2 * Node.sizeAll n.children + (2 * Node.sizeAll after + k + 1) + 1 := by
        rw [Node.sizeAll, Node.size_eq]
        omega
      rwa [belowAll, List.append_assoc, hrounds]

end

/-- **Moves.** A walk from the root of a tree ends after twice as many rounds as there are nodes,
and has visited the cursors of the tree. -/
theorem ends_iff (root : Node) (k : Nat) (cs : List Cursor) :
    Ends (.arrived (ofRoot root)) k cs ↔ k = 2 * root.size ∧ cs = cursors root := by
  have hlast : Ends (.done (ofRoot root)) 1 [] := .last rfl
  have hends := ends_below [] root hlast
  have hrounds : 2 * Node.sizeAll root.children + 1 + 1 = 2 * root.size := by
    rw [Node.size_eq]
    omega
  rw [List.append_nil, hrounds] at hends
  constructor
  · intro h
    exact h.unique hends
  · rintro ⟨rfl, rfl⟩
    exact hends

end Cursor

end ContentGraph.Tsx

import ContentGraph.Tsx.Piece

/-!
# What pieces read

A property of nodes that whatever wraps nodes hands on, and that no field name touches, holds of
all that a piece reads when it holds of what its parts read. `Piece.Reads` is a class, so that what
a rule of the grammar reads follows from the shape of the rule.
-/

namespace ContentGraph.Tsx

/-- All nodes that a piece reads have a property. -/
class Piece.Reads (Q : Node → Prop) (p : Piece) : Prop where
  reads : ∀ {src i ns j}, p src i = some (ns, j) → ∀ n ∈ ns, Q n

/-- All nodes that some pieces read have a property. -/
class Piece.AllRead (Q : Node → Prop) (ps : List Piece) : Prop where
  allRead : ∀ p ∈ ps, Piece.Reads Q p

/-- Nodes that have a property, as what was read so far. -/
abbrev Node.Having (Q : Node → Prop) := {ns : List Node // ∀ n ∈ ns, Q n}

/-- A node of a kind has a property when its children have it. -/
class Kind.Inherits (Q : Node → Prop) (kind : Kind) : Prop where
  inherits : ∀ field span {children : List Node},
    (∀ n ∈ children, Q n) → Q (.mk kind field span children)

/-- A node of a kind without children has a property. -/
class Kind.IsLeaf (Q : Node → Prop) (kind : Kind) : Prop where
  leaf : ∀ field span, Q (.mk kind field span [])

instance {Q : Node → Prop} {kind : Kind} [kind.Inherits Q] : kind.IsLeaf Q where
  leaf field span := Kind.Inherits.inherits field span fun _ hn => nomatch hn

/-- A property holds of a node under a field when it holds of the node. -/
class Field.Keeps (Q : Node → Prop) : Prop where
  keeps : ∀ (f : Field) {n : Node}, Q n → Q (n.withField f)

namespace Piece

variable {Q : Node → Prop} {p q : Piece} {ps : List Piece}

/-! ## Lists of pieces -/

instance : AllRead Q [] := ⟨fun _ h => nomatch h⟩

instance [Reads Q p] [AllRead Q ps] : AllRead Q (p :: ps) where
  allRead r hr := by
    rcases List.mem_cons.mp hr with rfl | hr
    · infer_instance
    · exact AllRead.allRead r hr

instance {α : Type} {f : α → Piece} [∀ a, Reads Q (f a)] {as : List α} :
    AllRead Q (as.map f) where
  allRead r hr := by
    obtain ⟨a, -, rfl⟩ := List.mem_map.mp hr
    infer_instance

/-! ## Sequence and choice -/

instance : Reads Q empty where
  reads h n hn := by
    simp only [empty, Option.some.injEq, Prod.mk.injEq] at h
    obtain ⟨rfl, -⟩ := h
    cases hn

instance : Reads Q fail where
  reads h := by simp [fail] at h

/-- What two pieces read one behind the other is what each of them reads. -/
theorem andThen_eq_some {src : Source} {i k : Nat} {ns : List Node}
    (h : andThen p q src i = some (ns, k)) :
    ∃ first j rest, p src i = some (first, j) ∧ q src j = some (rest, k) ∧ ns = first ++ rest := by
  unfold andThen at h
  split at h
  · cases h
  · rename_i first j hp
    split at h
    · cases h
    · rename_i rest k' hq
      cases h
      exact ⟨first, j, rest, hp, hq, rfl⟩

instance [Reads Q p] [Reads Q q] : Reads Q (andThen p q) where
  reads h := by
    obtain ⟨first, j, rest, hp, hq, rfl⟩ := andThen_eq_some h
    exact List.forall_mem_append.mpr ⟨Reads.reads hp, Reads.reads hq⟩

instance {next : List Node → Piece} [Reads Q p] [∀ ns, Reads Q (next ns)] :
    Reads Q (andThenBy p next) where
  reads {src i ns k} h := by
    unfold andThenBy at h
    split at h
    · cases h
    · rename_i first j hp
      obtain ⟨⟨rest, k'⟩, hq, heq⟩ := Option.map_eq_some_iff.mp h
      cases heq
      exact List.forall_mem_append.mpr ⟨Reads.reads hp, Reads.reads hq⟩

theorem reads_seq : (ps : List Piece) → (∀ p ∈ ps, Reads Q p) → Reads Q (seq ps)
  | [], _ => inferInstanceAs (Reads Q empty)
  | [p], h => h p (List.mem_singleton_self p)
  | p :: q :: ps, h => by
    have := h p List.mem_cons_self
    have := reads_seq (q :: ps) fun r hr => h r (List.mem_cons_of_mem p hr)
    exact inferInstanceAs (Reads Q (andThen p (seq (q :: ps))))

instance [AllRead Q ps] : Reads Q (seq ps) := reads_seq ps AllRead.allRead

theorem reads_choice : (ps : List Piece) → (∀ p ∈ ps, Reads Q p) → Reads Q (choice ps)
  | [], _ => inferInstanceAs (Reads Q fail)
  | p :: ps, h => ⟨fun {src i ns j} hread => by
    have hp := h p List.mem_cons_self
    have hps := reads_choice ps fun r hr => h r (List.mem_cons_of_mem p hr)
    unfold choice at hread
    split at hread
    · rename_i r hr
      exact hp.reads (hr.trans hread)
    · exact hps.reads hread⟩

instance [AllRead Q ps] : Reads Q (choice ps) := reads_choice ps AllRead.allRead

instance [Reads Q p] : Reads Q (optional p) where
  reads {src i ns j} h n hn := by
    unfold optional at h
    cases hp : p src i with
    | none =>
      simp only [hp, Option.getD_none, Option.some.injEq, Prod.mk.injEq] at h
      obtain ⟨rfl, -⟩ := h
      cases hn
    | some r =>
      rw [hp] at h
      exact Reads.reads (hp.trans h) n hn

/-! ## Repetition -/

theorem all_repeatFrom (p : Piece) [Reads Q p] (src : Source) (fuel : Nat) {done : List Node}
    (i : Nat) (hdone : ∀ n ∈ done, Q n) : ∀ n ∈ (repeatFrom p src fuel done i).1, Q n := by
  induction fuel generalizing done i with
  | zero => exact hdone
  | succ fuel ih =>
    unfold repeatFrom
    split
    · rename_i ns j hp
      split
      · exact ih j (List.forall_mem_append.mpr ⟨hdone, Reads.reads hp⟩)
      · exact hdone
    · exact hdone

instance [Reads Q p] : Reads Q (many p) where
  reads {src i ns j} h := by
    rw [many, Option.some.injEq] at h
    have hnone : ∀ n ∈ ([] : List Node), Q n := fun _ hn => nomatch hn
    have hall := all_repeatFrom p src (src.size + 1) i hnone
    rwa [h] at hall

instance [Reads Q p] : Reads Q (many1 p) := inferInstanceAs (Reads Q (andThen p (many p)))

theorem all_growFrom (step : List Node → Piece)
    [hstep : ∀ left : Node.Having Q, Reads Q (step left.1)] (src : Source) (fuel : Nat)
    {left : List Node} (i : Nat) (hleft : ∀ n ∈ left, Q n) :
    ∀ n ∈ (growFrom step src fuel left i).1, Q n := by
  induction fuel generalizing left i with
  | zero => exact hleft
  | succ fuel ih =>
    unfold growFrom
    split
    · rename_i ns j hread
      split
      · exact ih j ((hstep ⟨left, hleft⟩).reads hread)
      · exact hleft
    · exact hleft

instance {step : List Node → Piece} [Reads Q p]
    [∀ left : Node.Having Q, Reads Q (step left.1)] : Reads Q (grow p step) where
  reads {src i ns k} h := by
    unfold grow at h
    split at h
    · cases h
    · rename_i left j hp
      rw [Option.some.injEq] at h
      have hall := all_growFrom step src (src.size + 1) j (Reads.reads (Q := Q) hp)
      rwa [h] at hall

/-! ## Conditions -/

instance {test : Source → Nat → Bool} [Reads Q p] : Reads Q (when test p) where
  reads h := by
    unfold Piece.when at h
    split at h
    · exact Reads.reads h
    · cases h

instance {test : Source → Nat → Bool} : Reads Q (check test) :=
  inferInstanceAs (Reads Q (Piece.when test empty))

instance : Reads Q (notAhead p) where
  reads h n hn := by
    unfold notAhead at h
    split at h
    · cases h
    · cases h
      cases hn

instance : Reads Q (ahead p) where
  reads h n hn := by
    obtain ⟨r, -, heq⟩ := Option.map_eq_some_iff.mp h
    cases heq
    cases hn

instance {test : Prop} [Decidable test] [Reads Q p] [Reads Q q] :
    Reads Q (if test then p else q) := by
  split <;> infer_instance

/-- A piece that starts elsewhere. -/
instance [Reads Q p] {start : Source → Nat → Nat} : Reads Q fun src i => p src (start src i) where
  reads h := Reads.reads (p := p) h

/-! ## Nodes -/

section Nodes

variable {kind : Kind}

theorem all_nodeOf [kind.Inherits Q] (start stop : Nat) {ns : List Node} (hns : ∀ n ∈ ns, Q n) :
    ∀ n ∈ [nodeOf kind start stop ns], Q n := by
  intro n hn
  rw [List.mem_singleton.mp hn]
  exact Kind.Inherits.inherits none _ hns

/-- What a node wraps may have another property than the node. -/
theorem reads_node {R : Node → Prop} [Reads R p]
    (hnode : ∀ span {ns : List Node}, (∀ n ∈ ns, R n) → Q (.mk kind none span ns)) :
    Reads Q (node kind p) where
  reads {src i ns j} h n hn := by
    unfold node at h
    split at h
    · cases h
    · rename_i children k hp
      cases h
      rw [List.mem_singleton.mp hn]
      exact hnode _ (Reads.reads hp)

instance [kind.Inherits Q] [Reads Q p] : Reads Q (node kind p) :=
  reads_node fun span _ hns => Kind.Inherits.inherits none span hns

instance [kind.Inherits Q] {left : Node.Having Q} [Reads Q p] :
    Reads Q (onto kind left.1 p) where
  reads {src i ns j} h := by
    obtain ⟨⟨children, k⟩, hp, heq⟩ := Option.map_eq_some_iff.mp h
    cases heq
    exact all_nodeOf i _ (List.forall_mem_append.mpr ⟨left.2, Reads.reads hp⟩)

instance [Field.Keeps Q] {f : Field} [Reads Q p] : Reads Q (label f p) where
  reads {src i ns j} h n hn := by
    obtain ⟨⟨ms, k⟩, hp, heq⟩ := Option.map_eq_some_iff.mp h
    cases heq
    obtain ⟨m, hm, rfl⟩ := List.mem_map.mp hn
    exact Field.Keeps.keeps f (Reads.reads hp m hm)

instance [kind.IsLeaf Q] {find : Source → Nat → Option Nat} :
    Reads Q (immediate kind find) where
  reads {src i ns j} h n hn := by
    obtain ⟨k, -, heq⟩ := Option.map_eq_some_iff.mp h
    cases heq
    rw [List.mem_singleton.mp hn]
    exact Kind.IsLeaf.leaf none _

instance [kind.IsLeaf Q] {find : Source → Nat → Option Nat} : Reads Q (lexeme kind find) := by
  unfold lexeme
  infer_instance

instance [kind.IsLeaf Q] {ok : String → Bool} : Reads Q (wordIf kind ok) :=
  inferInstanceAs (Reads Q (lexeme kind _))

end Nodes

/-! ## Keywords, punctuation and lists -/

section Tokens

variable [∀ text, (Kind.token text).IsLeaf Q]

instance {text : String} : Reads Q (immediateMark text) :=
  inferInstanceAs (Reads Q (immediate (.token text) _))

instance {text : String} : Reads Q (mark text) := by
  unfold mark
  infer_instance

instance {text : String} {follow : List Char} : Reads Q (markNot text follow) where
  reads h := by
    unfold markNot at h
    dsimp only at h
    split at h
    · cases h
    · exact Reads.reads (p := immediateMark text) h

instance {text : String} : Reads Q (keyword text) :=
  inferInstanceAs (Reads Q (wordIf (.token text) _))

instance {texts : List String} : Reads Q (keywords texts) :=
  inferInstanceAs (Reads Q (choice (texts.map keyword)))

instance [Reads Q p] [Reads Q q] : Reads Q (sepBy1 p q) :=
  inferInstanceAs (Reads Q (andThen p (many (andThen q p))))

instance [Reads Q p] : Reads Q (commaList1 p) :=
  inferInstanceAs (Reads Q (andThen (sepBy1 p (mark ",")) (optional (mark ","))))

instance [Reads Q p] : Reads Q (gappedList p) :=
  inferInstanceAs (Reads Q (andThen (optional p) (many (andThen (mark ",") (optional p)))))

instance : Reads Q openBrace := inferInstanceAs (Reads Q (mark _))

instance : Reads Q closeBrace := inferInstanceAs (Reads Q (mark _))

instance [Reads Q p] : Reads Q (braced p) :=
  inferInstanceAs (Reads Q (seq [openBrace, p, closeBrace]))

instance [Reads Q p] : Reads Q (parenthesized p) :=
  inferInstanceAs (Reads Q (seq [mark "(", p, mark ")"]))

instance {rule : EndRule} : Reads Q (implicitEnd rule) := inferInstanceAs (Reads Q (check _))

instance {rule : EndRule} : Reads Q (statementEnd rule) :=
  inferInstanceAs (Reads Q (choice [implicitEnd rule, mark ";"]))

end Tokens

end Piece

end ContentGraph.Tsx

import ContentGraph.Proofs.Tsx.Reading
import ContentGraph.Tsx.Parser
import Mathlib.Logic.Basic

/-!
# Where text stands

In a tree that the grammar yields, text stands between tags only, and a character reference between
tags or in a string (`isPlain_of_parse?`). One rule after the other reads plain nodes if the goals
that it is given do; the rules of markup and of quoted attributes wrap what is not plain.
-/

namespace ContentGraph.Tsx

/-- Holds for text between tags and for character references. It is reducible so that instances may
depend on its value. -/
@[reducible] def Kind.isText : Kind → Bool
  | .jsxText => true
  | .characterReference => true
  | _ => false

instance Kind.fact_false : Fact (false = false) := ⟨rfl⟩

/-- A node of one kind may be the parent of a node of another, as far as text goes. -/
def Kind.MayHold (parent child : Kind) : Prop :=
  child.isText → parent = .jsxElement ∨ parent = .string ∧ child = .characterReference

/-- All nodes below a node stand where they may. -/
inductive Node.Placed : Node → Prop
  | mk {kind : Kind} {field : Option Field} {span : Span} {children : List Node} :
    (∀ n ∈ children, kind.MayHold n.kind) → (∀ n ∈ children, n.Placed) →
    Placed (.mk kind field span children)

/-- A node that may stand below a node of a kind. -/
def Node.Fits (parent : Kind) (n : Node) : Prop := parent.MayHold n.kind ∧ n.Placed

/-- A node that may stand anywhere. -/
def Node.IsPlain (n : Node) : Prop := n.kind.isText = false ∧ n.Placed

theorem Node.isPlain_mk {kind : Kind} [htext : Fact (kind.isText = false)]
    {field : Option Field} {span : Span} {children : List Node}
    (h : ∀ n ∈ children, n.Fits kind) : (Node.mk kind field span children).IsPlain :=
  ⟨htext.out, .mk (fun n hn => (h n hn).1) fun n hn => (h n hn).2⟩

theorem Node.IsPlain.fits {n : Node} (h : n.IsPlain) (parent : Kind) : n.Fits parent := by
  refine ⟨fun htext => ?_, h.2⟩
  rw [h.1] at htext
  cases htext

theorem Node.fits_leaf {parent kind : Kind} {field : Option Field} {span : Span}
    (h : parent.MayHold kind) : (Node.mk kind field span []).Fits parent :=
  ⟨h, .mk (List.forall_mem_nil _) (List.forall_mem_nil _)⟩

instance {kind : Kind} [Fact (kind.isText = false)] : kind.Inherits Node.IsPlain where
  inherits _ _ _ h := Node.isPlain_mk fun n hn => (h n hn).fits kind

instance {parent kind : Kind} [Fact (kind.isText = false)] : kind.IsLeaf (Node.Fits parent) where
  leaf field span := (Kind.IsLeaf.leaf (Q := Node.IsPlain) field span).fits parent

instance : Kind.IsLeaf (Node.Fits .jsxElement) .jsxText where
  leaf _ _ := Node.fits_leaf fun _ => .inl rfl

instance : Kind.IsLeaf (Node.Fits .jsxElement) .characterReference where
  leaf _ _ := Node.fits_leaf fun _ => .inl rfl

instance : Kind.IsLeaf (Node.Fits .string) .characterReference where
  leaf _ _ := Node.fits_leaf fun _ => .inr ⟨rfl, rfl⟩

instance : Field.Keeps Node.IsPlain where
  keeps f n h := by
    obtain ⟨kind, field, span, children⟩ := n
    obtain ⟨htext, hkinds, hplaced⟩ := h
    exact ⟨htext, .mk hkinds hplaced⟩

namespace Piece

abbrev ReadsPlain (p : Piece) : Prop := p.Reads Node.IsPlain

instance (priority := low) {p : Piece} [ReadsPlain p] {parent : Kind} :
    p.Reads (Node.Fits parent) where
  reads h n hn := (Reads.reads (Q := Node.IsPlain) h n hn).fits parent

/-- A node that wraps what may stand below it is plain. -/
theorem readsPlain_node {kind : Kind} [Fact (kind.isText = false)] {p : Piece}
    [p.Reads (Node.Fits kind)] : ReadsPlain (node kind p) :=
  reads_node (R := Node.Fits kind) fun _ _ hns => Node.isPlain_mk hns

theorem ReadsPlain.having {p : Piece} [ReadsPlain p] {src : Source} {i j : Nat} {ns : List Node}
    (h : p src i = some (ns, j)) : ∃ left : Node.Having Node.IsPlain, left.1 = ns :=
  ⟨⟨ns, Reads.reads h⟩, rfl⟩

end Piece

namespace Grammar

-- the rules are larger terms than instances are searched for by default
set_option synthInstance.maxSize 1000

open Piece

variable {g : Goals} [∀ goal, ReadsPlain (g goal)]

/-! ## Literals -/

instance : ReadsPlain string := by
  unfold string quotedString stringParts stringText escape commentNode
  dsimp only
  infer_instance

instance {kind : Kind} {inside : Piece} [Fact (kind.isText = false)] [ReadsPlain inside] :
    ReadsPlain (templateOf kind inside) := by
  unfold templateOf templateText escape
  dsimp only
  infer_instance

instance : ReadsPlain number := by unfold number; infer_instance

instance : ReadsPlain regex := by unfold regex; infer_instance

instance : ReadsPlain privateName := by unfold privateName; infer_instance

instance : ReadsPlain propertyWord := by unfold propertyWord; infer_instance

instance : ReadsPlain memberName := by unfold memberName; infer_instance

instance : ReadsPlain anyName := by unfold anyName; infer_instance

instance : ReadsPlain name := by unfold name; infer_instance

instance : ReadsPlain (propertyName g) := by unfold propertyName; infer_instance

/-! ## Types -/

instance : ReadsPlain (innerType g) := by unfold innerType; infer_instance

instance {c : TypeContext} : ReadsPlain (ascription g c) := by unfold ascription; infer_instance

instance : ReadsPlain (typeArguments g) := by unfold typeArguments; infer_instance

instance : ReadsPlain (typeParameters g) := by unfold typeParameters typeParameter; infer_instance

instance {c : Context} : ReadsPlain (initializer g c) := by unfold initializer; infer_instance

instance : ReadsPlain (decorator g) := by
  unfold decorator
  dsimp only
  infer_instance

instance : ReadsPlain (parameters g) := by
  unfold parameters parameter parameterModifier
  infer_instance

instance {c : TypeContext} : ReadsPlain (resultType g c) := by
  unfold resultType typePredicate predicateSubject
  infer_instance

instance {c : TypeContext} : ReadsPlain (resultAscription g c) := by
  unfold resultAscription
  infer_instance

instance {c : TypeContext} : ReadsPlain (signature g c) := by unfold signature; infer_instance

instance : ReadsPlain (indexSignature g) := by unfold indexSignature; infer_instance

theorem readsPlain_modifiersInOrder (stops : Source → Nat → Bool) :
    (order : List (List String)) → ReadsPlain (modifiersInOrder stops order)
  | [] => inferInstanceAs (ReadsPlain empty)
  | words :: rest => by
    have := readsPlain_modifiersInOrder stops rest
    unfold modifiersInOrder
    infer_instance

instance {stops : Source → Nat → Bool} {order : List (List String)} :
    ReadsPlain (modifiersInOrder stops order) := readsPlain_modifiersInOrder stops order

instance : ReadsPlain (objectType g) := by
  unfold objectType typeMember memberSeparator
  dsimp only
  infer_instance

instance : ReadsPlain (namedType g) := by unfold namedType; infer_instance

instance : ReadsPlain (importType g) := by unfold importType; infer_instance

instance {c : TypeContext} : ReadsPlain (bracketedType g c) := by
  unfold bracketedType plainType functionType tupleMember typeQuery
  infer_instance

instance {c : TypeContext} : ReadsPlain (type g c) := by
  unfold type
  dsimp only
  infer_instance

/-! ## Markup -/

instance {kind : Kind} [Fact (kind.isText = false)] : ReadsPlain (markupWord kind) := by
  unfold markupWord
  infer_instance

instance : ReadsPlain namespaceName := by unfold namespaceName; infer_instance

instance : ReadsPlain dottedName := by unfold dottedName; infer_instance

-- the references of a quoted value may stand below a string, so the string is plain
instance {quote : Char} : ReadsPlain (quotedValue quote) := by
  unfold quotedValue spacedReference
  exact readsPlain_node

section

variable {expressions : Piece} [ReadsPlain expressions]

instance : ReadsPlain (container g expressions) := by unfold container; infer_instance

instance : ReadsPlain (tagInside g expressions) := by unfold tagInside tagAttribute; infer_instance

instance : (child g expressions).Reads (Node.Fits .jsxElement) := by
  unfold child textChild
  infer_instance

instance : ReadsPlain closingTag := by unfold closingTag elementName; infer_instance

instance : ReadsPlain (markup g expressions) where
  reads {src i ns k} h := by
    -- the nodes of the opening tag are read first and wrapped when its end is known
    unfold markup at h
    split at h
    · cases h
    · rename_i opening j hopening
      obtain ⟨left, rfl⟩ := ReadsPlain.having hopening
      have : ReadsPlain (node .jsxElement (seq [
          label .openTag (onto .jsxOpeningElement left.1 (mark ">")),
          many (child g expressions), closingTag])) := readsPlain_node
      exact Reads.reads (p := choice [
        onto .jsxSelfClosingElement left.1 (mark "/>"), node .jsxElement _]) h

end

/-! ## Expressions -/

instance : ReadsPlain (inner g) := by unfold inner; infer_instance

instance {c : Context} : ReadsPlain (expressions g c) := by unfold expressions; infer_instance

instance : ReadsPlain (block g) := by unfold block; infer_instance

instance : ReadsPlain (spread g) := by unfold spread; infer_instance

instance : ReadsPlain (arguments g) := by unfold arguments; infer_instance

instance : ReadsPlain (template g) := by unfold template; infer_instance

instance : ReadsPlain (functionValue g) := by
  unfold functionValue functionTail
  dsimp only
  infer_instance

instance {c : Context} : ReadsPlain (arrowFunction g c) := by
  unfold arrowFunction arrowBody
  dsimp only
  infer_instance

instance {orders : List (List (List String))} : ReadsPlain (modifiedName g orders) := by
  unfold modifiedName
  infer_instance

instance : ReadsPlain (classTail g) := by
  unfold classTail heritage classBody classMember classMethod classField
  dsimp only
  infer_instance

instance : ReadsPlain (classValue g) := by unfold classValue; infer_instance

instance : ReadsPlain (object g) := by unfold object objectMember memberDone; infer_instance

instance : ReadsPlain (array g) := by unfold array; infer_instance

instance : ReadsPlain assign := by unfold assign; infer_instance

instance : ReadsPlain (destructuring g) := by
  unfold destructuring objectPattern arrayPattern patternMember
  dsimp only
  infer_instance

instance : ReadsPlain (memberTarget g) := by unfold memberTarget; infer_instance

instance : ReadsPlain (pattern g) := by unfold pattern; infer_instance

instance {left : Node.Having Node.IsPlain} : ReadsPlain (memberStep left.1) := by
  unfold memberStep
  infer_instance

instance {c : Context} : ReadsPlain (simpleOperand g c) := by
  unfold simpleOperand simpleOperand.moduleName
  infer_instance

instance {c : Context} {left : Node.Having Node.IsPlain} : ReadsPlain (attachment g c left.1) := by
  unfold attachment attachment.markNotAhead
  dsimp only
  infer_instance

instance {c : Context} : ReadsPlain (attachedOperand g c) := by
  unfold attachedOperand newExpression
  dsimp only
  infer_instance

instance {c : Context} : ReadsPlain (assignment.patternAssignment g c) := by
  unfold assignment.patternAssignment
  infer_instance

instance {c : Context} : ReadsPlain (assignment g c) where
  reads {src i ns k} h := by
    unfold assignment at h
    split at h
    · exact Reads.reads h
    · rename_i operand j hoperand
      obtain ⟨left, rfl⟩ := ReadsPlain.having hoperand
      -- the operand alone, or what an assignment makes of it
      have hor : ∀ {p : Piece} {at' : Nat}, ReadsPlain p →
          (match p src at' with | some r => some r | none => some (left.1, j)) = some (ns, k) →
          ∀ n ∈ ns, n.IsPlain := by
        intro p at' hp h
        split at h
        · rename_i r hr
          exact hp.reads (hr.trans h)
        · cases h
          exact left.2
      split at h
      · exact hor inferInstance h
      · split at h
        · exact hor inferInstance h
        · cases h
          exact left.2

instance {c : Context} : ReadsPlain (operand g c) := by unfold operand; infer_instance

instance {c : Context} : ReadsPlain (choices g c) where
  reads {src i ns k} h := by
    unfold choices at h
    dsimp only at h
    split at h
    · cases h
    · rename_i first j hfirst
      split at h
      · obtain ⟨⟨rest, k'⟩, hlast, heq⟩ := Option.map_eq_some_iff.mp h
        cases heq
        exact List.forall_mem_append.mpr ⟨Reads.reads hfirst, Reads.reads hlast⟩
      · exact Reads.reads h

instance {c : Context} : ReadsPlain (expression g c) := by
  unfold expression questionMark
  dsimp only
  infer_instance

/-! ## Statements -/

instance : ReadsPlain expressionEnd := by unfold expressionEnd; infer_instance

instance : ReadsPlain plainEnd := by unfold plainEnd; infer_instance

instance {free : Bool} {text : String} : ReadsPlain (leadingWord free text) := by
  unfold leadingWord
  infer_instance

instance : ReadsPlain (declarators g) := by unfold declarators declarator; infer_instance

instance {free : Bool} : ReadsPlain (lexicalDeclaration free g) := by
  unfold lexicalDeclaration
  infer_instance

instance : ReadsPlain (variableDeclaration g) := by unfold variableDeclaration; infer_instance

instance : ReadsPlain (functionDeclaration g) where
  reads {src i ns k} h := by
    unfold functionDeclaration at h
    dsimp only at h
    split at h
    · rename_i children j hgenerator
      cases h
      exact all_nodeOf i k (Reads.reads hgenerator)
    · split at h
      · cases h
      · rename_i head j hhead
        obtain ⟨left, rfl⟩ := ReadsPlain.having hhead
        split at h
        · exact Reads.reads h
        · exact Reads.reads h

instance {free : Bool} : ReadsPlain (plainDeclaration free g) := by
  unfold plainDeclaration classDeclaration interfaceDeclaration typeAlias enumDeclaration
    enumMember namespaceDeclaration importAlias
  infer_instance

theorem readsPlain_declarationWith (free : Bool) : (depth : Nat) →
    ReadsPlain (declarationWith free g depth)
  | 0 => inferInstanceAs (ReadsPlain (plainDeclaration free g))
  | depth + 1 => by
    have := readsPlain_declarationWith false depth
    unfold declarationWith
    infer_instance

instance {free : Bool} : ReadsPlain (declaration free g) where
  reads {src _ _ _} h := (readsPlain_declarationWith free (src.size + 1)).reads h

instance : ReadsPlain fromClause := by unfold fromClause; infer_instance

instance {p : Piece} [ReadsPlain p] : ReadsPlain (unlessEnded p) := by
  unfold unlessEnded
  infer_instance

instance : ReadsPlain moduleExportName := by unfold moduleExportName; infer_instance

instance : ReadsPlain specifiers := by
  unfold specifiers specifier nameDone
  dsimp only
  infer_instance

instance : ReadsPlain (importAttributes g) := by unfold importAttributes; infer_instance

instance : ReadsPlain (importStatement g) := by
  unfold importStatement importClause namespaceImport requireClause
  dsimp only
  infer_instance

instance : ReadsPlain (exportStatement g) := by
  unfold exportStatement defaultExport
  dsimp only
  infer_instance

instance : ReadsPlain (condition g) := by unfold condition; infer_instance

instance {word : String} {p : Piece} [ReadsPlain p] : ReadsPlain (clause word p) := by
  unfold clause
  infer_instance

instance : ReadsPlain (forInHeader g) := by unfold forInHeader; infer_instance

instance : ReadsPlain (forStatement g) where
  reads {src i ns k} h := by
    unfold forStatement forHeader at h
    split at h
    · rename_i head j hhead
      obtain ⟨left, rfl⟩ := ReadsPlain.having hhead
      exact Reads.reads h
    · exact Reads.reads h

instance : ReadsPlain (controlStatement g) := by
  unfold controlStatement ifStatement switchCase
  dsimp only
  infer_instance

instance : ReadsPlain (statement g) := by
  unfold statement statement.guardedExport labeledStatement expressionStatement reservedStart
  dsimp only
  infer_instance

end Grammar

/-! ## The whole grammar -/

instance {g : Goals} [∀ goal, (g goal).ReadsPlain] (goal : Goal) : (rule g goal).ReadsPlain := by
  cases goal with
  | statement => exact inferInstanceAs (Grammar.statement g).ReadsPlain
  | expression c => exact inferInstanceAs (Grammar.expression g c).ReadsPlain
  | operand c => exact inferInstanceAs (Grammar.operand g c).ReadsPlain
  | type c => exact inferInstanceAs (Grammar.type g c).ReadsPlain
  | typeOperand c => exact inferInstanceAs (Grammar.bracketedType g c).ReadsPlain
  | pattern => exact inferInstanceAs (Grammar.pattern g).ReadsPlain
  | markup => exact inferInstanceAs (Grammar.markup g (Grammar.expressions g .inner)).ReadsPlain

theorem readsPlain_goals (n : Nat) (goal : Goal) : (goals n goal).ReadsPlain := by
  induction n generalizing goal with
  | zero => exact inferInstanceAs Piece.fail.ReadsPlain
  | succ n ih => exact inferInstanceAs (rule (goals n) goal).ReadsPlain

instance : interpreterLine.ReadsPlain := by
  have : Piece.ReadsPlain fun src i =>
      if src.startsWith i ['#', '!'] then some ([], src.skipWhile (· != '\n') i) else none := by
    refine ⟨fun h n hn => ?_⟩
    split at h
    · cases h
      cases hn
    · cases h
  unfold interpreterLine
  infer_instance

/-- **Where text stands.** The syntax tree of a source is plain. -/
theorem isPlain_of_parse? {src : Source} {root : Node} (h : parse? src = some root) :
    root.IsPlain := by
  have hgoals := readsPlain_goals (8 * src.size + 64)
  have hprogram : (programPiece (goals (8 * src.size + 64))).ReadsPlain := by
    unfold programPiece
    infer_instance
  unfold parse? at h
  split at h
  · rename_i n j hread
    split at h
    · cases h
      exact hprogram.reads hread root List.mem_cons_self
    · cases h
  · cases h

end ContentGraph.Tsx

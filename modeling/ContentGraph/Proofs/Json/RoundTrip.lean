import ContentGraph.Proofs.Json.RereadFields

/-!
# Values read back

A value *fits* a depth when it is nested no deeper, its numbers are integers of a machine word and
its objects are in order. Rereading gives such a value back (`Fits.reread`). Main statement: a value
that fits `maxNesting` is what `parse?` makes of its text (`parse?_render`), so the text of such a
value never fails to be read.
-/

namespace ContentGraph.Json

/-- A value that its text gives back: nested at most `room` levels deep, with integers of a machine
word for numbers and strictly increasing keys in every object. -/
inductive Fits : Nat → Json → Prop
  | null {room : Nat} : Fits room .null
  | bool {room : Nat} (b : Bool) : Fits room (.bool b)
  | integer {room : Nat} {n : Int} (h : InWord n) : Fits room (.number (.integer n))
  | string {room : Nat} (s : String) : Fits room (.string s)
  | array {room : Nat} {items : List Json} (h : ∀ v ∈ items, Fits room v) :
      Fits (room + 1) (.array items)
  | object {room : Nat} {fields : List (String × Json)} (hs : Fields.Sorted fields)
      (h : ∀ p ∈ fields, Fits room p.2) : Fits (room + 1) (.object fields)

theorem mapM_eq_self {α : Type} {f : α → Option α} {xs : List α} (h : ∀ x ∈ xs, f x = some x) :
    xs.mapM f = some xs := by
  induction xs with
  | nil => rfl
  | cons x xs ih =>
      obtain ⟨hx, hxs⟩ := List.forall_mem_cons.1 h
      rw [List.mapM_cons, hx, ih hxs]
      rfl

/-- A value that fits is reread as it is. -/
theorem Fits.reread {room : Nat} {v : Json} (h : Fits room v) : reread room v = some v := by
  induction h with
  | @null room => cases room <;> rfl
  | @bool room b => cases room <;> rfl
  | @string room s => cases room <;> rfl
  | @integer room n h =>
      have hnumber : (rereadNumber (.integer n)).map Json.number = some (.number (.integer n)) := by
        rw [rereadNumber_integer h]
        rfl
      cases room <;> exact hnumber
  | @array room items _ ih =>
      show (items.mapM (Json.reread room)).map Json.array = _
      rw [mapM_eq_self ih]
      rfl
  | @object room fields hs _ ih =>
      show (rereadFields (Json.reread room) fields).map _ = _
      rw [rereadFields_eq_self ih]
      exact congrArg (fun fs => some (Json.object fs)) (Fields.ofList_of_sorted hs)

/-- **Round trip.** A value that fits is read back from its text. -/
theorem parse?_render {v : Json} (h : Fits maxNesting v) : parse? (render v) = some v := by
  rw [parse?_render_eq, h.reread]

end ContentGraph.Json

import TableQuery.Proofs.Json.Start
import TableQuery.Table.Reader

/-! # Definitions at the start of a text

The readers of definitions and of their parts look one character ahead at most, so what is read of an
array of definitions does not depend on what follows its closing bracket. -/

namespace TableQuery

open Json

theorem bounded_readField {α : Type} {read : Reader α} (h : Local read) (name : String) (old : Option α) :
    Bounded (readField name old read) :=
  .ite (fun _ => bounded_error _) fun _ => bounded_memberValue h name

theorem steady_requireField {α : Type} (name : String) (found : Option α) :
    Steady fun cs => requireField name cs found := by
  intro cs cs' a eq
  cases found with
  | none => cases eq
  | some b => exact eq

theorem Column.bounded_readMember (read : List Column) (key : String) : Bounded (Column.readMember read key) :=
  (bounded_memberValue bounded_readText.near key).bind fun _ =>
    .ite (fun _ => local_error _) fun _ => local_return _

theorem Column.bounded_readAll : Bounded Column.readAll :=
  bounded_startingAt fun c =>
    .ite (fun _ => (closedBy_members Column.bounded_readMember []).near.bind fun _ => local_return _)
      fun _ => local_refuse _ c

namespace ForeignKey

theorem bounded_readKeys : Bounded readKeys := bounded_readList bounded_readText

theorem bounded_readMember (f : Fields) (key : String) : Bounded (readMember f key) :=
  .ite (fun _ => (bounded_readField bounded_readKeys.near _ _).bind fun _ => local_return _) fun _ =>
    .ite (fun _ => (bounded_readField bounded_readText.near _ _).bind fun _ => local_return _) fun _ =>
    (bounded_memberValue local_skipValue key).bind fun _ => local_return _

theorem local_readObject : Local readObject :=
  (closedBy_members bounded_readMember {}).near.bind fun _ =>
    (steady_requireField _ _).bind fun _ => (steady_requireField _ _).bind fun _ => local_return _

theorem local_readArray : Local readArray :=
  (local_placeAt bounded_readKeys.near 0 false).bind fun (_, closed) =>
    (steady_required _ _ closed _).bind fun _ =>
    (local_placeAt bounded_readText.near 1 closed).bind fun (_, closed) =>
    (steady_required _ _ closed _).bind fun _ =>
    (local_close closed).bind fun _ => local_return _

theorem bounded_read : Bounded read :=
  bounded_startingAt fun c => .ite (fun _ => local_readObject) fun _ =>
    .ite (fun _ => local_readArray) fun _ => local_refuse _ c

end ForeignKey

namespace Definition

theorem bounded_readPrimaryKeys : Bounded readPrimaryKeys :=
  bounded_readOptional (bounded_readList bounded_readText)

theorem bounded_readForeignKeys : Bounded readForeignKeys := bounded_readList ForeignKey.bounded_read

theorem bounded_readMember (f : Fields) (key : String) : Bounded (readMember f key) :=
  .ite (fun _ => (bounded_readField bounded_readText.near _ _).bind fun _ => local_return _) fun _ =>
    .ite (fun _ => (bounded_readField Column.bounded_readAll.near _ _).bind fun _ => local_return _) fun _ =>
    .ite (fun _ => (bounded_readField bounded_readPrimaryKeys.near _ _).bind fun _ => local_return _) fun _ =>
    .ite (fun _ => (bounded_readField bounded_readForeignKeys.near _ _).bind fun _ => local_return _) fun _ =>
    .ite (fun _ => (bounded_readField bounded_readBoolean.near _ _).bind fun _ => local_return _) fun _ =>
    bounded_error _

theorem local_readObject : Local readObject :=
  (closedBy_members bounded_readMember {}).near.bind fun _ =>
    (steady_requireField _ _).bind fun _ => (steady_requireField _ _).bind fun _ => local_return _

theorem local_readArray : Local readArray :=
  (local_placeAt bounded_readText.near 0 false).bind fun (_, closed) =>
    (steady_required _ _ closed _).bind fun _ =>
    (local_placeAt Column.bounded_readAll.near 1 closed).bind fun (_, closed) =>
    (steady_required _ _ closed _).bind fun _ =>
    (local_placeAt bounded_readPrimaryKeys.near 2 closed).bind fun (_, closed) =>
    (local_placeAt bounded_readForeignKeys.near 3 closed).bind fun (_, closed) =>
    (local_placeAt bounded_readBoolean.near 4 closed).bind fun (_, closed) =>
    (local_close closed).bind fun _ => local_return _

theorem bounded_read : Bounded read :=
  bounded_startingAt fun c => .ite (fun _ => local_readObject) fun _ =>
    .ite (fun _ => local_readArray) fun _ => local_refuse _ c

/-- What is read of an array of definitions ends in its closing bracket. -/
theorem closedBy_readAll : ClosedBy ']' readAll := closedBy_readList bounded_read

theorem append_bracket (array : String) : array ++ "]" = array.push ']' := by
  rw [← String.toList_inj]
  simp

theorem listOfJsonStart_eq_ok_iff {text : String} {ds : List Definition} :
    listOfJsonStart text = .ok ds ↔
      ∃ array rest, text = array ++ "]" ++ rest ∧ listOfJson (array ++ "]") = .ok ds := by
  simp only [append_bracket]
  exact closedBy_readAll.readFirst_eq_ok_iff rfl

theorem readAll_append {array : String} {ds : List Definition} (h : listOfJson (array ++ "]") = .ok ds)
    (rest : String) : readAll (array ++ "]" ++ rest).toList = .ok (ds, rest.toList) := by
  rw [append_bracket] at h ⊢
  exact closedBy_readAll.read_append rfl h rest

end Definition

end TableQuery

import CodeAtlas.Proofs.Json.RoundTrip
import CodeAtlas.Proofs.Store.Rows

/-!
# Property bags as texts

Nothing in the JSON of a property says of which sort it is, and the sort is found again from the form of
the value: a number with a point or an exponent is a float, one without is an integer, and a list
holds texts. So the text of a bag is read as the bag with its floats read again (`parse?_toJson`), as
long as its integers fit a signed word of 64 bits.
-/

set_option autoImplicit false

namespace CodeAtlas

open Std

/-! ## Values -/

/-- Whether an integer fits a signed word of 64 bits. -/
def PropValue.IsWord : PropValue → Prop
  | int n => Int64.minValue.toInt ≤ n ∧ n ≤ Int64.maxValue.toInt
  | _ => True

instance : DecidablePred PropValue.IsWord := fun value =>
  match value with
  | .int n => inferInstanceAs (Decidable (Int64.minValue.toInt ≤ n ∧ n ≤ Int64.maxValue.toInt))
  | .bool _ | .float _ | .text _ | .list _ => .isTrue trivial

/-- Whether the integers of a bag fit signed words of 64 bits. -/
def Props.Words (props : Props) : Prop := ∀ value ∈ props.values, value.IsWord

instance : DecidablePred Props.Words := fun props => List.decidableBAll PropValue.IsWord props.values

theorem asString?_strs (values : List String) :
    (values.map Json.str).mapM Json.asString? = some values := mapM_map_eq_self fun _ _ => rfl

/-- A value is read back with its sort. -/
theorem PropValue.readBack?_toJson (depth : Nat) {value : PropValue} (h : value.IsWord) :
    (value.toJson.readBack? (depth + 1)).bind ofJson? = value.reread? := by
  cases value with
  | bool b => rfl
  | int n =>
    have hword : -(UInt64.size / 2 : Nat) ≤ n ∧ n < UInt64.size := by
      have hmin : Int64.minValue.toInt = -(2 ^ 63) := rfl
      have hmax : Int64.maxValue.toInt = 2 ^ 63 - 1 := rfl
      simp only [IsWord, hmin, hmax] at h
      simp only [UInt64.size]
      omega
    rw [toJson, Json.readBack?, Json.NumberLiteral.value?_ofInt hword.1 hword.2]
    exact if_pos h
  | float x =>
    rw [toJson, Json.readBack?, reread?]
    split
    next hfinite =>
      rw [Json.NumberLiteral.value?_ofFloat hfinite]
      cases Json.reread? x <;> rfl
    next hfinite => simp [Json.reread?, hfinite, ofJson?]
  | text s => rfl
  | list values =>
    have hplain : (Json.arr (values.map .str)).Plain (depth + 1) := by simp [Json.Plain]
    rw [toJson, Json.readBack?_of_plain _ _ hplain, Option.bind_some, ofJson?, asString?_strs, reread?]
    · rfl
    · simp

/-! ## Bags -/

theorem Props.foldl_insert (pairs : List (String × PropValue)) :
    pairs.foldl (fun props (name, value) => props.insert name value) (∅ : Props) = .ofList pairs := by
  have hmany : ∀ props : Props,
      pairs.foldl (fun props (name, value) => props.insert name value) props =
        props.insertMany pairs := by
    induction pairs with
    | nil => intro props; simp
    | cons pair pairs ih =>
      intro props
      rw [List.foldl_cons, ih, ExtTreeMap.insertMany_cons]
  rw [hmany, ofList, ExtTreeMap.ofList_eq_insertMany_empty]

theorem Props.ofJson?_obj (members : List (String × Json)) : ofJson? (.obj members) =
    (members.mapM fun member => (PropValue.ofJson? member.2).map (member.1, ·)).map ofList := by
  have hmember : (fun member : String × Json =>
      (do return (member.1, ← PropValue.ofJson? member.2) : Option (String × PropValue))) =
      fun member => (PropValue.ofJson? member.2).map (member.1, ·) := by
    funext member
    cases PropValue.ofJson? member.2 <;> rfl
  show (do
    let pairs ← members.mapM fun member : String × Json => do
      return (member.1, ← PropValue.ofJson? member.2)
    return pairs.foldl (fun (props : Props) (name, value) => props.insert name value) ∅) = _
  rw [hmember]
  simp only [foldl_insert]
  cases members.mapM fun member : String × Json =>
    (PropValue.ofJson? member.2).map (member.1, ·) <;> rfl

/-- The text of a bag is read as the bag with its floats read again. -/
theorem Props.parse?_toJson {props : Props} (h : props.Words) :
    Props.parse? props.toJson.write = props.reread? := by
  have hpair : ∀ pair ∈ props.toList,
      (((pair.2.toJson.readBack? 126).map (pair.1, ·)).bind fun member =>
        (PropValue.ofJson? member.2).map (member.1, ·)) = pair.2.reread?.map (pair.1, ·) := by
    rintro ⟨name, value⟩ hp
    have hword := h value ((Maps.mem_values _ _).mpr
      ⟨name, ExtTreeMap.mem_toList_iff_getElem?_eq_some.mp hp⟩)
    rw [← PropValue.readBack?_toJson 125 hword]
    cases value.toJson.readBack? 126 <;> rfl
  have hobject : props.toJson.readBack? Json.maxDepth =
      ((props.toList.map fun pair : String × PropValue => (pair.1, pair.2.toJson)).mapM
        fun member : String × Json => (member.2.readBack? 126).map (member.1, ·)).map .obj := rfl
  rw [parse?, Json.parse?_write, hobject, reread?_eq_map, ← mapM_congr hpair, ← mapM_bind_mapM,
    List.mapM_map, Option.bind_eq_bind, Option.bind_map, Option.map_bind]
  exact Option.bind_congr fun members _ => ofJson?_obj members

end CodeAtlas

import WebhookBroadcast.Codec.FormUrlencoded

/-!
# `URLSearchParams`

The pairs of a query string with the operations of the class.
-/

namespace Js

structure SearchParams where
  pairs : List (String × String)
deriving DecidableEq

namespace SearchParams

/-- `new URLSearchParams(search)`, for a text without the question mark. -/
def ofString (search : String) : SearchParams :=
  ⟨Codec.FormUrlencoded.parse search.toList⟩

protected def toString (params : SearchParams) : String :=
  String.ofList (Codec.FormUrlencoded.serialize params.pairs)

def get (params : SearchParams) (name : String) : Option String :=
  (params.pairs.find? fun pair => pair.1 = name).map Prod.snd

def has (params : SearchParams) (name : String) : Bool :=
  params.pairs.any fun pair => pair.1 = name

/-- Replace the first pair of the name and remove the others, or append one. -/
def setPair (name value : String) :
    List (String × String) → List (String × String)
  | [] => [(name, value)]
  | pair :: rest =>
      if pair.1 = name then (name, value) :: rest.filter fun pair => pair.1 ≠ name
      else pair :: setPair name value rest

def set (params : SearchParams) (name value : String) : SearchParams :=
  ⟨setPair name value params.pairs⟩

variable {params : SearchParams} {name value : String}

/-- A query string is read back from its text. -/
theorem ofString_toString (params : SearchParams) :
    ofString params.toString = params := by
  rw [ofString, SearchParams.toString, String.toList_ofList,
    Codec.FormUrlencoded.parse_serialize]

theorem has_eq_isSome_get : params.has name = (params.get name).isSome := by
  rw [has, get, Option.isSome_map, Bool.eq_iff_iff, List.any_eq_true,
    List.find?_isSome]

theorem get_set_self : (params.set name value).get name = some value := by
  rw [get, set]
  induction params.pairs with
  | nil => simp [setPair]
  | cons pair rest ih =>
      by_cases hname : pair.1 = name
      · simp [setPair, hname]
      · rw [setPair, if_neg hname, List.find?_cons_of_neg (by simpa using hname)]
        exact ih

/-- The entries of other names stay, in their order. -/
theorem filter_set_ne :
    (params.set name value).pairs.filter (fun pair => pair.1 ≠ name) =
      params.pairs.filter fun pair => pair.1 ≠ name := by
  rw [set]
  induction params.pairs with
  | nil => simp [setPair]
  | cons pair rest ih =>
      by_cases hname : pair.1 = name
      · rw [setPair, if_pos hname, List.filter_cons_of_neg (by simp),
          List.filter_filter, List.filter_cons_of_neg (by simpa using hname)]
        simp only [Bool.and_self]
      · rw [setPair, if_neg hname, List.filter_cons_of_pos (by simpa using hname),
          List.filter_cons_of_pos (by simpa using hname), ih]

end SearchParams

end Js

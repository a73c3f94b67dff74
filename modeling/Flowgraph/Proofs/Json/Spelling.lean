import Flowgraph.Json.Document

/-!
# Documents and their tokens

How a document is written as tokens, and that it is read back from them. The number of tokens is
fuel enough: every item and every member has a comma of its own, and every call takes a token off.

* `value_spelling` — a document is read back from its tokens.
* `parse?_of_tokens` — so is a text that is cut into the tokens of a document.
-/

namespace Flowgraph.Json.Document

mutual

/-- The tokens that a document is written as. -/
def spelling : Document → List Token
  | .null => [.null]
  | .bool b => [.bool b]
  | .number n => [.number n]
  | .text s => [.text s]
  | .array [] => [.openArray, .closeArray]
  | .array (item :: rest) =>
    .openArray :: (item.spelling ++ itemsSpelling rest ++ [.closeArray])
  | .object [] => [.openObject, .closeObject]
  | .object ((key, value) :: rest) =>
    .openObject :: .text key :: .colon ::
      (value.spelling ++ membersSpelling rest ++ [.closeObject])

/-- The items after the first, a comma before each. -/
def itemsSpelling : List Document → List Token
  | [] => []
  | item :: rest => .comma :: (item.spelling ++ itemsSpelling rest)

/-- The members after the first, a comma before each. -/
def membersSpelling : List (Option String × Document) → List Token
  | [] => []
  | (key, value) :: rest =>
    .comma :: .text key :: .colon :: (value.spelling ++ membersSpelling rest)

end

/-- No document begins like the end of an array. -/
theorem exists_spelling (d : Document) :
    ∃ t ts, d.spelling = t :: ts ∧ t ≠ .closeArray := by
  cases d with
  | array items => cases items <;> exact ⟨_, _, rfl, nofun⟩
  | object members => rcases members with _ | ⟨⟨key, value⟩, rest⟩ <;> exact ⟨_, _, rfl, nofun⟩
  | _ => exact ⟨_, _, rfl, nofun⟩

/-- An array whose first item does not begin like its end. -/
theorem value_array {fuel : Nat} {d : Document} {ds : List Document} {ts rest : List Token}
    (hfirst : value fuel (d.spelling ++ ts) = some (d, ts))
    (hothers : items fuel ts = some (ds, rest)) :
    value (fuel + 1) (.openArray :: (d.spelling ++ ts)) = some (.array (d :: ds), rest) := by
  -- the reader looks at one token to tell an empty array
  obtain ⟨t, us, heq, hne⟩ := d.exists_spelling
  rw [heq, List.cons_append] at hfirst ⊢
  rw [value, hfirst]
  · show (items fuel ts).bind _ = _
    rw [hothers]
    rfl
  · rintro rest h
    cases h
    exact hne rfl

theorem value_object {fuel : Nat} {key : Option String} {d : Document}
    {ms : List (Option String × Document)} {ts us rest : List Token}
    (hfirst : value fuel ts = some (d, us)) (hothers : members fuel us = some (ms, rest)) :
    value (fuel + 1) (.openObject :: .text key :: .colon :: ts) =
      some (.object ((key, d) :: ms), rest) := by
  rw [value, hfirst]
  show (members fuel us).bind _ = _
  rw [hothers]
  rfl

theorem items_comma {fuel : Nat} {d : Document} {ds : List Document} {ts us rest : List Token}
    (hnext : value fuel ts = some (d, us)) (hothers : items fuel us = some (ds, rest)) :
    items (fuel + 1) (.comma :: ts) = some (d :: ds, rest) := by
  rw [items, hnext]
  show (items fuel us).bind _ = _
  rw [hothers]
  rfl

theorem members_comma {fuel : Nat} {key : Option String} {d : Document}
    {ms : List (Option String × Document)} {ts us rest : List Token}
    (hnext : value fuel ts = some (d, us)) (hothers : members fuel us = some (ms, rest)) :
    members (fuel + 1) (.comma :: .text key :: .colon :: ts) = some ((key, d) :: ms, rest) := by
  rw [members, hnext]
  show (members fuel us).bind _ = _
  rw [hothers]
  rfl

mutual

/-- **A document is read back from its tokens**, and what is behind them is left. -/
theorem value_spelling : ∀ (d : Document) (fuel : Nat) (rest : List Token),
    d.spelling.length < fuel → value fuel (d.spelling ++ rest) = some (d, rest)
  | .null, fuel + 1, rest, _ => rfl
  | .bool b, fuel + 1, rest, _ => rfl
  | .number n, fuel + 1, rest, _ => rfl
  | .text s, fuel + 1, rest, _ => rfl
  | .array [], fuel + 1, rest, _ => rfl
  | .array (item :: others), fuel + 1, rest, h => by
    rw [spelling, List.length_cons, List.length_append, List.length_append] at h
    -- the opening bracket pays for one unit of fuel
    have hfirst := value_spelling item fuel (itemsSpelling others ++ .closeArray :: rest) (by omega)
    have hothers := items_spelling others fuel rest (by omega)
    rw [spelling, List.cons_append, List.append_assoc, List.append_assoc]
    exact value_array hfirst hothers
  | .object [], fuel + 1, rest, _ => rfl
  | .object ((key, d) :: others), fuel + 1, rest, h => by
    rw [spelling, List.length_cons, List.length_cons, List.length_cons, List.length_append,
      List.length_append] at h
    have hfirst := value_spelling d fuel (membersSpelling others ++ .closeObject :: rest) (by omega)
    have hothers := members_spelling others fuel rest (by omega)
    rw [spelling, List.cons_append, List.cons_append, List.cons_append, List.append_assoc,
      List.append_assoc]
    exact value_object hfirst hothers

theorem items_spelling : ∀ (ds : List Document) (fuel : Nat) (rest : List Token),
    (itemsSpelling ds).length < fuel →
      items fuel (itemsSpelling ds ++ .closeArray :: rest) = some (ds, rest)
  | [], fuel + 1, rest, _ => rfl
  | d :: ds, fuel + 1, rest, h => by
    rw [itemsSpelling, List.length_cons, List.length_append] at h
    -- the fuel is more than the tokens of the rest, and each item takes one at least
    have hnext := value_spelling d fuel (itemsSpelling ds ++ .closeArray :: rest) (by omega)
    have hothers := items_spelling ds fuel rest (by omega)
    rw [itemsSpelling, List.cons_append, List.append_assoc]
    exact items_comma hnext hothers

theorem members_spelling : ∀ (ms : List (Option String × Document)) (fuel : Nat)
    (rest : List Token), (membersSpelling ms).length < fuel →
      members fuel (membersSpelling ms ++ .closeObject :: rest) = some (ms, rest)
  | [], fuel + 1, rest, _ => rfl
  | (key, d) :: ms, fuel + 1, rest, h => by
    rw [membersSpelling, List.length_cons, List.length_cons, List.length_cons, List.length_append]
      at h
    have hnext := value_spelling d fuel (membersSpelling ms ++ .closeObject :: rest) (by omega)
    have hothers := members_spelling ms fuel rest (by omega)
    rw [membersSpelling, List.cons_append, List.cons_append, List.cons_append, List.append_assoc]
    exact members_comma hnext hothers

end

/-- **What is written token by token is one document.** -/
theorem parse?_of_tokens {s : String} {d : Document} (h : tokens s.toList = some d.spelling) :
    parse? s = some d := by
  -- as much fuel as there are tokens is enough
  have hvalue := value_spelling d (d.spelling.length + 1) [] (Nat.lt_succ_self _)
  rw [List.append_nil] at hvalue
  rw [parse?, h]
  show (value (d.spelling.length + 1) d.spelling).bind _ = _
  rw [hvalue]
  rfl

end Flowgraph.Json.Document

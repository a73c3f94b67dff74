import Flowgraph.Field
import Flowgraph.Proofs.Template.Mentions

/-!
# Interpolation

What a filled template looks like, said without the cutting. Every position of the text contributes
something: the first character of a placeholder the text of its value, the others of a placeholder
nothing, and each character that belongs to no placeholder itself. The result is these contributions
one after another. The pattern of placeholders may occur wherever it likes, so this says that the
text has no other reading: two occurrences are the same or apart, and a position contributes one
thing only.

An inserted value is a contribution like any other. It is never looked at again, even if it looks
like a placeholder: at each occurrence the result falls into the filled text before it, the text of
the value, and the filled text behind it.

* `Template.Contributes`, `Template.Interpolates` — the contribution of a position, and the results
  that consist of them.
* `Template.Occurs.apart` — occurrences do not overlap.
* `Consumer.interpolated_readString` — interpolation replaces the placeholders and nothing else.
-/

namespace Flowgraph

namespace Template

/-! ### Occurrences -/

/-- Where an occurrence ends, the characters counted. -/
def stop (before body : List Char) : Nat := before.length + body.length + 4

theorem length_source (body : List Char) :
    (Part.placeholder body).source.length = body.length + 4 := by
  simp [Part.source]

/-- One place of a text is the beginning of one placeholder at most. -/
theorem body_unique {body after body' after' : List Char} (hne : body ≠ [])
    (hinner : ∀ c ∈ body, isInner c = true) (hne' : body' ≠ [])
    (hinner' : ∀ c ∈ body', isInner c = true)
    (h : (Part.placeholder body).source ++ after = (Part.placeholder body').source ++ after') :
    body = body' ∧ after = after' := by
  have hp : placeholder? ((Part.placeholder body).source ++ after) = some (body, after) :=
    placeholder?_eq_some_iff.mpr ⟨rfl, hne, hinner⟩
  have hp' := placeholder?_eq_some_iff.mpr ⟨h, hne', hinner'⟩
  rw [hp] at hp'
  cases hp'
  exact ⟨rfl, rfl⟩

/-- An occurrence is not overlapped by a later one. -/
theorem Occurs.apart_of_le {s before body before' body' : List Char} (h : Occurs s before body)
    (h' : Occurs s before' body') (hle : before.length ≤ before'.length) :
    (before = before' ∧ body = body') ∨ stop before body ≤ before'.length := by
  obtain ⟨⟨after, rfl⟩, hne, hinner⟩ := h
  obtain ⟨⟨after', htext⟩, hne', hinner'⟩ := h'
  -- the later one stands behind the earlier one's beginning, by the characters in `t`
  obtain ⟨t, rfl⟩ : before <+: before' :=
    List.prefix_of_prefix_length_le ⟨_, rfl⟩ ⟨_, htext.symm⟩ hle
  rw [List.append_assoc] at htext
  have htext := List.append_cancel_left htext
  cases t with
  | nil =>
    obtain ⟨rfl, -⟩ := body_unique hne hinner hne' hinner' htext
    exact .inl ⟨(List.append_nil _).symm, rfl⟩
  | cons c t =>
    obtain ⟨between, ht, -⟩ := append_of_overlap hne hinner htext.symm
    refine .inr ?_
    rw [stop, List.length_append, ht, List.length_append, length_source]
    omega

/-- **Placeholders do not overlap**: of two occurrences one ends before the other begins, if they
are not the same. -/
theorem Occurs.apart {s before body before' body' : List Char} (h : Occurs s before body)
    (h' : Occurs s before' body') :
    (before = before' ∧ body = body') ∨ stop before body ≤ before'.length ∨
      stop before' body' ≤ before.length := by
  rcases Nat.le_total before.length before'.length with hle | hle
  · exact (h.apart_of_le h' hle).imp_right .inl
  · rcases h'.apart_of_le h hle with ⟨rfl, rfl⟩ | hstop
    · exact .inl ⟨rfl, rfl⟩
    · exact .inr (.inr hstop)

/-- A position of a text lies within an occurrence. -/
structure Covers (s : List Char) (i : Nat) (before body : List Char) : Prop where
  occurs : Occurs s before body
  start_le : before.length ≤ i
  lt_stop : i < stop before body

/-- A position lies within one occurrence at most. -/
theorem Covers.unique {s : List Char} {i : Nat} {before body before' body' : List Char}
    (h : Covers s i before body) (h' : Covers s i before' body') :
    before = before' ∧ body = body' := by
  rcases h.occurs.apart h'.occurs with heq | hstop | hstop
  · exact heq
  · exact absurd (h.lt_stop.trans_le hstop) (Nat.not_lt.mpr h'.start_le)
  · exact absurd (h'.lt_stop.trans_le hstop) (Nat.not_lt.mpr h.start_le)

/-! ### Contributions -/

/-- The text of the value that a path leads to; nothing if it leads nowhere. -/
def shown (vars : Variables) (path : List Char) : List Char :=
  ((vars.resolve (String.ofList path)).elim "" Value.display).toList

/-- What the character at a position of a text contributes to the filled text. -/
inductive Contributes (vars : Variables) (s : List Char) (i : Nat) : List Char → Prop
  /-- A placeholder is replaced as a whole where it begins. -/
  | replaced {before body : List Char} (h : Covers s i before body) :
      Contributes vars s i (if i = before.length then shown vars body else [])
  | copied {c : Char} (hc : s[i]? = some c) (h : ∀ before body, ¬ Covers s i before body) :
      Contributes vars s i [c]

/-- A text that consists of what the positions of another contribute, in their order. -/
def Interpolates (vars : Variables) (s result : List Char) : Prop :=
  ∃ pieces : List (List Char), pieces.length = s.length ∧
    (∀ i piece, pieces[i]? = some piece → Contributes vars s i piece) ∧ result = pieces.flatten

section

variable {vars : Variables} {s : List Char}

/-- **A position contributes one thing only.** -/
theorem Contributes.unique {i : Nat} {piece piece' : List Char}
    (h : Contributes vars s i piece) (h' : Contributes vars s i piece') : piece = piece' := by
  -- a place is covered by one placeholder or by none
  cases h with
  | replaced hcov =>
    cases h' with
    | replaced hcov' =>
      obtain ⟨rfl, rfl⟩ := hcov.unique hcov'
      rfl
    | copied _ hfree => exact absurd hcov (hfree _ _)
  | copied hc hfree =>
    cases h' with
    | replaced hcov => exact absurd hcov (hfree _ _)
    | copied hc' =>
      rw [hc] at hc'
      cases hc'
      rfl

/-- So a text is interpolated in one way only. -/
theorem Interpolates.unique {result result' : List Char} (h : Interpolates vars s result)
    (h' : Interpolates vars s result') : result = result' := by
  obtain ⟨pieces, hlen, hpieces, rfl⟩ := h
  obtain ⟨pieces', hlen', hpieces', rfl⟩ := h'
  have hsame : pieces = pieces' := by
    refine List.ext_getElem (hlen.trans hlen'.symm) fun i hi hi' => ?_
    exact (hpieces i _ (List.getElem?_eq_getElem hi)).unique
      (hpieces' i _ (List.getElem?_eq_getElem hi'))
  rw [hsame]

/-! ### Parts -/

/-- What the characters of a part contribute. -/
def Part.pieces (vars : Variables) : Part → List (List Char)
  | .char c => [[c]]
  | .placeholder body => shown vars body :: List.replicate (body.length + 3) []

theorem Part.length_pieces (p : Part) : (p.pieces vars).length = p.source.length := by
  cases p with
  | char c => rfl
  | placeholder body => rw [pieces, List.length_cons, List.length_replicate, length_source]

theorem Part.flatten_pieces (p : Part) : (p.pieces vars).flatten = p.fill vars := by
  cases p with
  | char c => rfl
  | placeholder body =>
    rw [pieces, List.flatten_cons, List.flatten_replicate_nil, List.append_nil, shown, fill]
    cases vars.resolve (String.ofList body) <;> rfl

/-- The occurrences of a text behind a first part that none of them reaches out of or into. -/
def Separate (t s : List Char) : Prop :=
  ∀ before body, Occurs (t ++ s) before body →
    stop before body ≤ t.length ∨ ∃ between, before = t ++ between ∧ Occurs s between body

/-- What is behind such a part contributes what it contributes alone. -/
theorem Contributes.behind {t : List Char} (hsep : Separate t s) {i : Nat} {piece : List Char}
    (h : Contributes vars s i piece) : Contributes vars (t ++ s) (t.length + i) piece := by
  cases h with
  | @replaced before body hcov =>
    have hcov' : Covers (t ++ s) (t.length + i) (t ++ before) body := by
      refine ⟨hcov.occurs.append t, ?_, ?_⟩
      · rw [List.length_append]
        exact Nat.add_le_add_left hcov.start_le _
      · have := hcov.lt_stop
        rw [stop] at this ⊢
        rw [List.length_append]
        omega
    -- the beginning of a placeholder is moved along with everything else
    have hstart : (t.length + i = (t ++ before).length) ↔ i = before.length := by
      rw [List.length_append]
      omega
    have hpiece : Contributes vars (t ++ s) _ _ := .replaced hcov'
    simp only [hstart] at hpiece
    exact hpiece
  | copied hc hfree =>
    refine .copied ?_ fun before body hcov => ?_
    · rw [List.getElem?_append_right (Nat.le_add_right _ _), Nat.add_sub_cancel_left, hc]
    · -- a placeholder that covers the place begins behind the part, so it is one of the rest
      rcases hsep before body hcov.occurs with hstop | ⟨between, rfl, hocc⟩
      · have := hcov.lt_stop
        omega
      · have hle := hcov.start_le
        have hlt := hcov.lt_stop
        rw [stop, List.length_append] at hlt
        rw [List.length_append] at hle
        exact hfree between body ⟨hocc, by omega, by rw [stop]; omega⟩

/-- A character at which no placeholder begins belongs to none of those behind it. -/
theorem separate_char {c : Char} (h : placeholder? (c :: s) = none) : Separate [c] s := by
  rintro before body ⟨⟨after, htext⟩, hne, hinner⟩
  cases before with
  | nil =>
    have hp : placeholder? (c :: s) = some (body, after) :=
      placeholder?_eq_some_iff.mpr ⟨htext, hne, hinner⟩
    rw [h] at hp
    cases hp
  | cons d before =>
    obtain ⟨rfl, hrest⟩ := List.cons.inj htext
    exact .inr ⟨before, rfl, ⟨after, hrest⟩, hne, hinner⟩

/-- A placeholder is separate from what is behind it. -/
theorem separate_placeholder {path : List Char} (hne : path ≠ [])
    (hinner : ∀ c ∈ path, isInner c = true) : Separate (Part.placeholder path).source s := by
  rintro before body ⟨⟨after, htext⟩, hne', hinner'⟩
  cases before with
  | nil =>
    obtain ⟨rfl, -⟩ := body_unique hne hinner hne' hinner' htext
    refine .inl ?_
    rw [stop, length_source, List.length_nil]
    omega
  | cons d before =>
    obtain ⟨between, hbefore, hafter⟩ := append_of_overlap hne hinner htext.symm
    exact .inr ⟨between, hbefore, ⟨after, hafter⟩, hne', hinner'⟩

/-- The contributions of a first part and of what is behind it. -/
theorem contributes_append {t : List Char} {ps qs : List (List Char)} (hsep : Separate t s)
    (hlen : ps.length = t.length)
    (hps : ∀ i piece, ps[i]? = some piece → Contributes vars (t ++ s) i piece)
    (hqs : ∀ i piece, qs[i]? = some piece → Contributes vars s i piece) (i : Nat)
    (piece : List Char) (h : (ps ++ qs)[i]? = some piece) : Contributes vars (t ++ s) i piece := by
  rcases Nat.lt_or_ge i ps.length with hlt | hge
  · rw [List.getElem?_append_left hlt] at h
    exact hps i piece h
  · rw [List.getElem?_append_right hge] at h
    have hbehind := (hqs _ piece h).behind hsep
    rwa [← hlen, Nat.add_sub_cancel' hge] at hbehind

/-- A character at which no placeholder begins is copied. -/
theorem contributes_char {c : Char} (h : placeholder? (c :: s) = none) :
    Contributes vars (c :: s) 0 [c] := by
  refine .copied rfl fun before body hcov => ?_
  -- it could only lie within a placeholder that begins with it
  obtain rfl := List.length_eq_zero_iff.mp (Nat.le_zero.mp hcov.start_le)
  obtain ⟨⟨after, htext⟩, hne, hinner⟩ := hcov.occurs
  have hp := placeholder?_eq_some_iff.mpr ⟨htext, hne, hinner⟩
  rw [h] at hp
  cases hp

/-- A placeholder is replaced at its first character. -/
theorem contributes_placeholder {path : List Char} (hne : path ≠ [])
    (hinner : ∀ c ∈ path, isInner c = true) {i : Nat} {piece : List Char}
    (hi : ((Part.placeholder path).pieces vars)[i]? = some piece) :
    Contributes vars ((Part.placeholder path).source ++ s) i piece := by
  have hlt : i < path.length + 4 := by
    have hlen := (List.getElem?_eq_some_iff.mp hi).1
    rwa [Part.length_pieces, length_source] at hlen
  have hcov : Covers ((Part.placeholder path).source ++ s) i [] path := by
    refine ⟨⟨⟨s, rfl⟩, hne, hinner⟩, Nat.zero_le _, ?_⟩
    rw [stop, List.length_nil]
    omega
  -- what is shown stands at the first character, and nothing at the others
  have hpiece : piece = if i = ([] : List Char).length then shown vars path else [] := by
    cases i with
    | zero =>
      cases hi
      rfl
    | succ i =>
      rw [Part.pieces, List.getElem?_cons_succ] at hi
      exact List.eq_of_mem_replicate (List.mem_of_getElem? hi)
  rw [hpiece]
  exact .replaced hcov

/-- The pieces of the parts are what the positions contribute. -/
theorem contributes_parts {i : Nat} {piece : List Char}
    (h : ((parts s).flatMap (Part.pieces vars))[i]? = some piece) : Contributes vars s i piece := by
  -- induction along the cutting: each part contributes its own pieces, in front of the rest
  fun_induction parts s generalizing i piece with
  | case1 => cases h
  | case2 c rest path after hp ih =>
    obtain ⟨htext, hne, hinner⟩ := placeholder?_eq_some_iff.mp hp
    rw [htext]
    refine contributes_append (separate_placeholder hne hinner) (Part.length_pieces _)
      (fun i piece hi => contributes_placeholder hne hinner hi) (fun i piece hi => ih hi) i piece ?_
    rwa [List.flatMap_cons] at h
  | case3 c rest hp ih =>
    have hlen : ((Part.char c).pieces vars).length = [c].length := Part.length_pieces (.char c)
    refine contributes_append (separate_char hp) hlen (fun i piece hi => ?_)
      (fun i piece hi => ih hi) i piece ?_
    · obtain ⟨hlt, rfl⟩ := List.getElem?_eq_some_iff.mp hi
      obtain rfl := Nat.lt_one_iff.mp hlt
      exact contributes_char hp
    · rwa [List.flatMap_cons] at h

theorem flatten_flatMap_pieces (ps : List Part) :
    (ps.flatMap (Part.pieces vars)).flatten = ps.flatMap (Part.fill vars) := by
  induction ps with
  | nil => rfl
  | cons p ps ih =>
    rw [List.flatMap_cons, List.flatten_append, ih, Part.flatten_pieces, List.flatMap_cons]

/-- **A filled template consists of the contributions of its positions.** -/
theorem interpolates_fill (vars : Variables) (text : String) :
    Interpolates vars text.toList (fill vars text).toList := by
  refine ⟨(parts text.toList).flatMap (Part.pieces vars), ?_,
    fun i piece h => contributes_parts h, ?_⟩
  · have hsource := congrArg List.length (source_parts text.toList)
    rw [List.length_flatMap] at hsource ⊢
    simpa only [Part.length_pieces] using hsource
  · rw [fill, String.toList_ofList, flatten_flatMap_pieces]

end

/-! ### Around a placeholder -/

/-- A placeholder is cut out wherever it occurs: what is before it is cut as if it ended there. -/
theorem parts_append_placeholder (before : List Char) {path : List Char} (after : List Char)
    (hne : path ≠ []) (hinner : ∀ c ∈ path, isInner c = true) :
    parts (before ++ ((Part.placeholder path).source ++ after)) =
      parts before ++ .placeholder path :: parts after := by
  fun_induction parts before with
  | case1 =>
    rw [List.nil_append, List.nil_append]
    exact parts_of_placeholder? (placeholder?_eq_some_iff.mpr ⟨rfl, hne, hinner⟩)
  | case2 c rest path' after' hp ih =>
    obtain ⟨htext, hne', hinner'⟩ := placeholder?_eq_some_iff.mp hp
    rw [htext, List.append_assoc,
      parts_of_placeholder? (placeholder?_eq_some_iff.mpr ⟨rfl, hne', hinner'⟩), ih,
      List.cons_append]
  | case3 c rest hp ih =>
    have hnone :
        placeholder? (c :: (rest ++ ((Part.placeholder path).source ++ after))) = none := by
      -- one that begins here would end before the placeholder, and so without it
      by_contra hsome
      obtain ⟨⟨path', rest'⟩, hp'⟩ := Option.ne_none_iff_exists'.mp hsome
      obtain ⟨htext, hne', hinner'⟩ := placeholder?_eq_some_iff.mp hp'
      obtain ⟨between, hbetween, -⟩ := append_of_overlap hne' hinner' htext
      rw [placeholder?_eq_some_iff.mpr ⟨hbetween, hne', hinner'⟩] at hp
      cases hp
    rw [List.cons_append, parts_of_none hnone, ih, List.cons_append]

/-- What is filled in around a placeholder does not depend on it, nor on its value. -/
theorem fill_append_placeholder (vars : Variables) (before : List Char) {path : List Char}
    (after : List Char) (hne : path ≠ []) (hinner : ∀ c ∈ path, isInner c = true) :
    (parts (before ++ ((Part.placeholder path).source ++ after))).flatMap (Part.fill vars) =
      (parts before).flatMap (Part.fill vars) ++
        (shown vars path ++ (parts after).flatMap (Part.fill vars)) := by
  have hshown : (Part.placeholder path).fill vars = shown vars path := by
    rw [← Part.flatten_pieces, Part.pieces, List.flatten_cons, List.flatten_replicate_nil,
      List.append_nil]
  rw [parts_append_placeholder before after hne hinner, List.flatMap_append, List.flatMap_cons,
    hshown]

/-- A text in which the placeholders, and nothing else, are replaced. -/
structure Interpolated (vars : Variables) (text result : String) : Prop where
  /-- The contributions of the positions make up the result, and no other text. -/
  contributions : ∀ s, Interpolates vars text.toList s ↔ s = result.toList
  apart : ∀ before body before' body', Occurs text.toList before body →
    Occurs text.toList before' body' →
    (before = before' ∧ body = body') ∨ stop before body ≤ before'.length ∨
      stop before' body' ≤ before.length
  /-- At each occurrence the text of the value stands between what the two sides give alone. -/
  around : ∀ before body after, Occurs text.toList before body →
    text.toList = before ++ ((Part.placeholder body).source ++ after) →
    result.toList = (fill vars (String.ofList before)).toList ++
      (shown vars body ++ (fill vars (String.ofList after)).toList)

theorem interpolated_fill (vars : Variables) (text : String) :
    Interpolated vars text (fill vars text) where
  contributions s := by
    constructor
    · intro h
      exact h.unique (interpolates_fill vars text)
    · rintro rfl
      exact interpolates_fill vars text
  apart _ _ _ _ h h' := h.apart h'
  around before body after hocc htext := by
    simp only [fill, String.toList_ofList]
    rw [htext, fill_append_placeholder vars before after hocc.ne_nil hocc.inner]

end Template

/-- **Interpolation replaces the placeholders and nothing else.** -/
theorem Consumer.interpolated_readString {c : Consumer} {text : String} (h : c.raw = some text)
    (vars : Variables) : Template.Interpolated vars text (c.readString vars) := by
  rw [readString, h]
  exact Template.interpolated_fill vars text

/-- Three opening braces, of which the second begins the placeholder, and a value that looks like
the placeholder behind it. -/
theorem Consumer.interpolated_braces :
    ∃ (c : Consumer) (vars : Variables),
      c.raw = some "\x7b\x7b\x7ba\x7d\x7d\x7d \x7b\x7bb\x7d\x7d" ∧
      vars.resolve "a" = some (.text "\x7b\x7bb\x7d\x7d") ∧
      c.readString vars = "\x7b\x7b\x7bb\x7d\x7d\x7d " ∧
      Template.Interpolated vars "\x7b\x7b\x7ba\x7d\x7d\x7d \x7b\x7bb\x7d\x7d"
        (c.readString vars) := by
  let c : Consumer :=
    { kind := .string, value := some "\x7b\x7b\x7ba\x7d\x7d\x7d \x7b\x7bb\x7d\x7d" }
  let vars : Variables := StringMap.insert ∅ "a" (.text "\x7b\x7bb\x7d\x7d")
  refine ⟨c, vars, rfl, ?_, ?_, Consumer.interpolated_readString rfl vars⟩
  · rfl
  · decide +kernel

end Flowgraph

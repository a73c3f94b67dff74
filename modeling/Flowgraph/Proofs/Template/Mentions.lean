import Flowgraph.Template
import Mathlib.Data.List.DropRight

/-!
# What a template mentions

The placeholders of a text, each with the byte at which it starts and with its path. Cutting a text
into parts goes from left to right and never looks back, so it is not plain that it finds every
placeholder: one might begin inside another. It does find them all, since a placeholder has no
opening brace behind its first two, and so the list can be described without the cutting: it holds
the places where the pattern occurs, in ascending order.

* `Template.mentions` — the placeholders of a text.
* `Template.mem_mentions_iff`, `Template.pairwise_mentions` — they are the occurrences of the
  pattern, in the order of the text.
* `Template.fill_congr` — what is filled in depends on the variables at these places only.
-/

namespace Flowgraph

/-! ### Trimming -/

namespace Text

theorem mem_dropWhile_isBlank {c : Char} (hc : isBlank c = false) (s : List Char) :
    c ∈ s.dropWhile isBlank ↔ c ∈ s := by
  induction s with
  | nil => exact Iff.rfl
  | cons a rest ih =>
    by_cases ha : isBlank a = true
    · rw [List.dropWhile_cons_of_pos ha, ih, List.mem_cons]
      -- the blank that goes is another character
      have hne : c ≠ a := by
        rintro rfl
        rw [hc] at ha
        cases ha
      exact ⟨.inr, fun h => h.resolve_left hne⟩
    · rw [List.dropWhile_cons_of_neg ha]

/-- Trimming takes nothing away but blanks. -/
theorem mem_trim_iff {c : Char} (hc : isBlank c = false) (s : List Char) :
    c ∈ trim s ↔ c ∈ s := by
  rw [trim, trimEnd, List.mem_reverse, mem_dropWhile_isBlank hc, List.mem_reverse, trimStart,
    mem_dropWhile_isBlank hc]

theorem trimEnd_cons (c : Char) (s : List Char) :
    trimEnd (c :: s) = if trimEnd s = [] ∧ isBlank c = true then [] else c :: trimEnd s := by
  rw [trimEnd, trimEnd, List.reverse_cons, List.dropWhile_append]
  by_cases hs : s.reverse.dropWhile isBlank = []
  · -- behind the character there are only blanks
    cases hc : isBlank c <;> simp [hs, hc]
  · simp [hs]

/-- The two ends may be trimmed in either order. -/
theorem trimStart_trimEnd (s : List Char) : trimStart (trimEnd s) = trimEnd (trimStart s) := by
  induction s with
  | nil => rfl
  | cons c rest ih =>
    rw [trimEnd_cons]
    by_cases hc : isBlank c = true
    · have hstart : trimStart (c :: rest) = trimStart rest := List.dropWhile_cons_of_pos hc
      rw [hstart, ← ih]
      split
      · next h => rw [h.1]
      · exact List.dropWhile_cons_of_pos hc
    · -- nothing goes from the front
      have hstart : trimStart (c :: rest) = c :: rest := List.dropWhile_cons_of_neg hc
      rw [hstart, trimEnd_cons, if_neg fun h => hc h.2]
      exact List.dropWhile_cons_of_neg hc

theorem trim_trim (s : List Char) : trim (trim s) = trim s := by
  have hstart : trimStart (trimStart s) = trimStart s := List.dropWhile_idempotent _ _
  have hend : ∀ t, trimEnd (trimEnd t) = trimEnd t := fun t => by
    rw [trimEnd, trimEnd, List.reverse_reverse, List.dropWhile_idempotent]
  calc trim (trim s) = trimEnd (trimStart (trimEnd (trimStart s))) := rfl
    _ = trimEnd (trimEnd (trimStart (trimStart s))) := by rw [trimStart_trimEnd]
    _ = trimEnd (trimStart (trimStart s)) := hend _
    _ = trim s := by rw [hstart]; rfl

theorem byteLength_append (s t : List Char) :
    byteLength (s ++ t) = byteLength s + byteLength t := by
  induction s with
  | nil => exact (Nat.zero_add _).symm
  | cons c s ih => rw [List.cons_append, byteLength, byteLength, ih, Nat.add_assoc]

end Text

/-! ### Mentions -/

/-- A place in a text at which a path is named. -/
structure Mention where
  /-- The first byte of the braces. -/
  start : Nat
  /-- What stands between the braces, without outer blanks. -/
  path : String
deriving DecidableEq

namespace Template

/-- The placeholders among parts of a text, with bytes counted from a position. -/
def mentionsFrom (pos : Nat) : List Part → List Mention
  | [] => []
  | .char c :: rest => mentionsFrom (pos + c.utf8Size) rest
  | .placeholder body :: rest =>
    ⟨pos, String.ofList (Text.trim body)⟩ :: mentionsFrom (pos + Text.byteLength body + 4) rest

/-- The placeholders of a text. -/
def mentions (s : String) : List Mention := mentionsFrom 0 (parts s.toList)

/-- The pattern of a placeholder occurs in a text, behind a first part and with the given body. -/
structure Occurs (s before body : List Char) : Prop where
  text : ∃ after, s = before ++ ((Part.placeholder body).source ++ after)
  ne_nil : body ≠ []
  inner : ∀ c ∈ body, isInner c = true

theorem isInner_iff (c : Char) : isInner c = true ↔ c ≠ '\x7b' ∧ c ≠ '\x7d' := by
  simp [isInner]

/-! ### Cutting -/

theorem source_placeholder_append (body after : List Char) :
    (Part.placeholder body).source ++ after =
      '\x7b' :: '\x7b' :: (body ++ '\x7d' :: '\x7d' :: after) := by
  simp [Part.source]

/-- **What a placeholder is**: a body that is not empty and holds no brace, between braces. -/
theorem placeholder?_eq_some_iff {s body after : List Char} :
    placeholder? s = some (body, after) ↔
      s = (Part.placeholder body).source ++ after ∧ body ≠ [] ∧ ∀ c ∈ body, isInner c = true := by
  constructor
  · intro h
    refine ⟨eq_source_append_of_placeholder? h, ?_⟩
    unfold placeholder? at h
    split at h
    · split at h
      · dsimp only at h
        split at h
        · cases h
        · next hne =>
          cases h
          exact ⟨hne, fun c hc => List.mem_takeWhile_imp hc⟩
      · cases h
    · cases h
  · -- read from the left, the text gives back the body and what is behind it
    rintro ⟨rfl, hne, hinner⟩
    -- the body ends at the first character that is a brace
    have htake : (body ++ '\x7d' :: '\x7d' :: after).takeWhile isInner = body := by
      rw [List.takeWhile_append_of_pos hinner, List.takeWhile_cons_of_neg (by decide),
        List.append_nil]
    have hdrop : (body ++ '\x7d' :: '\x7d' :: after).dropWhile isInner =
        '\x7d' :: '\x7d' :: after := by
      rw [List.dropWhile_append_of_pos hinner, List.dropWhile_cons_of_neg (by decide)]
    rw [source_placeholder_append]
    simp only [placeholder?, hdrop, htake, if_neg hne]

theorem parts_of_placeholder? {s body after : List Char}
    (h : placeholder? s = some (body, after)) : parts s = .placeholder body :: parts after := by
  cases s with
  | nil => cases h
  | cons c rest =>
    rw [parts]
    split
    · next heq =>
      rw [h] at heq
      cases heq
      rfl
    · next heq =>
      rw [h] at heq
      cases heq

theorem parts_of_none {c : Char} {rest : List Char} (h : placeholder? (c :: rest) = none) :
    parts (c :: rest) = .char c :: parts rest := by
  rw [parts]
  split
  · next heq =>
    rw [h] at heq
    cases heq
  · rfl

/-- Only an opening brace may begin a placeholder. -/
theorem parts_of_ne {c : Char} {rest : List Char} (h : c ≠ '\x7b') :
    parts (c :: rest) = .char c :: parts rest := by
  refine parts_of_none ?_
  cases hp : placeholder? (c :: rest) with
  | none => rfl
  | some r =>
    obtain ⟨htext, -⟩ := placeholder?_eq_some_iff.mp hp
    exact absurd (List.cons.inj htext).1 h

/-- Characters that open no placeholder are passed over. -/
theorem mentionsFrom_append {cs : List Char} (h : '\x7b' ∉ cs) (pos : Nat) (rest : List Char) :
    mentionsFrom pos (parts (cs ++ rest)) =
      mentionsFrom (pos + Text.byteLength cs) (parts rest) := by
  -- one character after another, with the position moving along
  induction cs generalizing pos with
  | nil => rfl
  | cons c cs ih =>
    obtain ⟨hc, hcs⟩ := not_or.mp (mt List.mem_cons.mpr h)
    rw [List.cons_append, parts_of_ne (Ne.symm hc), mentionsFrom, ih hcs, Text.byteLength,
      Nat.add_assoc]

theorem mentionsFrom_placeholder {s body after : List Char}
    (h : placeholder? s = some (body, after)) (pos : Nat) :
    mentionsFrom pos (parts s) = ⟨pos, String.ofList (Text.trim body)⟩ ::
      mentionsFrom (pos + Text.byteLength body + 4) (parts after) := by
  rw [parts_of_placeholder? h, mentionsFrom]

/-! ### Occurrences -/

theorem byteLength_source (body : List Char) :
    Text.byteLength (Part.placeholder body).source = Text.byteLength body + 4 := by
  have hopen : Char.utf8Size '\x7b' = 1 := rfl
  have hclose : Text.byteLength ['\x7d', '\x7d'] = 2 := rfl
  rw [Part.source, List.cons_append, List.cons_append, Text.byteLength, Text.byteLength,
    Text.byteLength_append, hopen, hclose]
  omega

/-- **Placeholders do not overlap.** A placeholder that occurs behind the beginning of another one
occurs behind its end. -/
theorem append_of_overlap {before body after path rest : List Char} {c : Char}
    (hne : path ≠ []) (hinner : ∀ c ∈ path, isInner c = true)
    (h : (c :: before) ++ ((Part.placeholder body).source ++ after) =
      (Part.placeholder path).source ++ rest) :
    ∃ between, c :: before = (Part.placeholder path).source ++ between ∧
      rest = between ++ ((Part.placeholder body).source ++ after) := by
  -- the second begins within the first, at some part `t` of it, or not before its end
  rcases List.append_eq_append_iff.mp h with ⟨t, hsource, hrest⟩ | ⟨t, hbefore, hrest⟩
  · rw [source_placeholder_append] at hrest
    have hnotMem : ∀ d ∈ path ++ ['\x7d', '\x7d'], d ≠ '\x7b' := by
      intro d hd
      rcases List.mem_append.mp hd with hd | hd
      · exact ((isInner_iff d).mp (hinner d hd)).1
      · rintro rfl
        exact absurd hd (by decide)
    cases t with
    | nil =>
      -- the second begins where the first ends
      refine ⟨[], ?_, ?_⟩
      · rw [hsource]
        simp
      · rw [source_placeholder_append]
        exact hrest.symm
    | cons d t =>
      obtain ⟨rfl, htail⟩ := List.cons.inj hrest
      have hsource : '\x7b' :: '\x7b' :: (path ++ ['\x7d', '\x7d']) =
          c :: (before ++ '\x7b' :: t) := hsource
      have hsource := (List.cons.inj hsource).2
      cases before with
      | nil =>
        -- the second begins at the second brace, so the path begins with a brace
        have ht : path ++ ['\x7d', '\x7d'] = t := (List.cons.inj hsource).2
        cases path with
        | nil => exact absurd rfl hne
        | cons a path =>
          rw [← ht] at htail
          have ha : a ≠ '\x7b' := hnotMem a (List.mem_append_left _ List.mem_cons_self)
          exact absurd (List.cons.inj htail).1.symm ha
      | cons b before =>
        -- the second begins behind the braces, where there is no opening one
        have ht : path ++ ['\x7d', '\x7d'] = before ++ '\x7b' :: t := (List.cons.inj hsource).2
        refine absurd rfl (hnotMem '\x7b' ?_)
        rw [ht]
        exact List.mem_append_right _ List.mem_cons_self
  · exact ⟨t, hbefore, hrest⟩

theorem Occurs.cons {s before body : List Char} (h : Occurs s before body) (c : Char) :
    Occurs (c :: s) (c :: before) body := by
  obtain ⟨⟨after, rfl⟩, hne, hinner⟩ := h
  exact ⟨⟨after, rfl⟩, hne, hinner⟩

theorem Occurs.append {s before body : List Char} (h : Occurs s before body) (t : List Char) :
    Occurs (t ++ s) (t ++ before) body := by
  obtain ⟨⟨after, rfl⟩, hne, hinner⟩ := h
  exact ⟨⟨after, (List.append_assoc ..).symm⟩, hne, hinner⟩

theorem not_occurs_nil (before body : List Char) : ¬ Occurs [] before body := by
  rintro ⟨⟨after, htext⟩, -, -⟩
  rw [source_placeholder_append] at htext
  exact absurd htext.symm (List.append_ne_nil_of_right_ne_nil _ (List.cons_ne_nil _ _))

/-- Where a text begins with a placeholder, only that one occurs before its end. -/
theorem occurs_iff_of_placeholder? {s path after before body : List Char}
    (h : placeholder? s = some (path, after)) :
    Occurs s before body ↔ before = [] ∧ body = path ∨
      ∃ between, before = (Part.placeholder path).source ++ between ∧
        Occurs after between body := by
  obtain ⟨rfl, hne, hinner⟩ := placeholder?_eq_some_iff.mp h
  constructor
  · rintro ⟨⟨after', htext⟩, hne', hinner'⟩
    cases before with
    | nil =>
      -- the text begins with one placeholder only
      have hfirst := placeholder?_eq_some_iff.mpr ⟨htext, hne', hinner'⟩
      rw [h] at hfirst
      cases hfirst
      exact .inl ⟨rfl, rfl⟩
    | cons d before =>
      -- what occurs behind its beginning occurs behind its end
      obtain ⟨between, hbefore, hafter⟩ := append_of_overlap hne hinner htext.symm
      exact .inr ⟨between, hbefore, ⟨⟨after', hafter⟩, hne', hinner'⟩⟩
  · rintro (⟨rfl, rfl⟩ | ⟨between, rfl, hocc⟩)
    · exact ⟨⟨after, rfl⟩, hne, hinner⟩
    · exact hocc.append _

/-- Where a text begins with a character that is not part of a placeholder, all occur behind it. -/
theorem occurs_cons_iff_of_none {c : Char} {rest before body : List Char}
    (h : placeholder? (c :: rest) = none) :
    Occurs (c :: rest) before body ↔
      ∃ between, before = c :: between ∧ Occurs rest between body := by
  constructor
  · rintro ⟨⟨after, htext⟩, hne, hinner⟩
    cases before with
    | nil =>
      -- no placeholder begins here
      have hfirst := placeholder?_eq_some_iff.mpr ⟨htext, hne, hinner⟩
      rw [h] at hfirst
      cases hfirst
    | cons d before =>
      obtain ⟨rfl, hrest⟩ := List.cons.inj htext
      exact ⟨before, rfl, ⟨⟨after, hrest⟩, hne, hinner⟩⟩
  · rintro ⟨between, rfl, hocc⟩
    exact hocc.cons c

/-- What a text mentions from a position on. -/
theorem mem_mentionsFrom_iff {s : List Char} {pos : Nat} {m : Mention} :
    m ∈ mentionsFrom pos (parts s) ↔ ∃ before body, Occurs s before body ∧
      m = ⟨pos + Text.byteLength before, String.ofList (Text.trim body)⟩ := by
  fun_induction parts s generalizing pos with
  | case1 =>
    constructor
    · intro h
      cases h
    · rintro ⟨before, body, hocc, -⟩
      exact absurd hocc (not_occurs_nil before body)
  | case2 c rest path after hp ih =>
    -- the placeholder itself, or one behind it, which begins that much later
    have hshift : ∀ between, pos + Text.byteLength path + 4 + Text.byteLength between =
        pos + Text.byteLength ((Part.placeholder path).source ++ between) := by
      intro between
      rw [Text.byteLength_append, byteLength_source]
      omega
    rw [mentionsFrom, List.mem_cons, ih]
    constructor
    · rintro (rfl | ⟨between, body, hocc, rfl⟩)
      · exact ⟨[], path, (occurs_iff_of_placeholder? hp).mpr (.inl ⟨rfl, rfl⟩), rfl⟩
      · rw [hshift]
        exact ⟨_, body, (occurs_iff_of_placeholder? hp).mpr (.inr ⟨between, rfl, hocc⟩), rfl⟩
    · rintro ⟨before, body, hocc, rfl⟩
      rcases (occurs_iff_of_placeholder? hp).mp hocc with ⟨rfl, rfl⟩ | ⟨between, rfl, hafter⟩
      · exact .inl rfl
      · rw [← hshift]
        exact .inr ⟨between, body, hafter, rfl⟩
  | case3 c rest hp ih =>
    have hshift : ∀ between, pos + c.utf8Size + Text.byteLength between =
        pos + Text.byteLength (c :: between) := by
      intro between
      rw [Text.byteLength, Nat.add_assoc]
    rw [mentionsFrom, ih]
    constructor
    · rintro ⟨between, body, hocc, rfl⟩
      rw [hshift]
      exact ⟨_, body, (occurs_cons_iff_of_none hp).mpr ⟨between, rfl, hocc⟩, rfl⟩
    · rintro ⟨before, body, hocc, rfl⟩
      obtain ⟨between, rfl, hrest⟩ := (occurs_cons_iff_of_none hp).mp hocc
      rw [← hshift]
      exact ⟨between, body, hrest, rfl⟩

/-- **A text mentions what the pattern of placeholders matches**, wherever it occurs. -/
theorem mem_mentions_iff {s : String} {m : Mention} :
    m ∈ mentions s ↔ ∃ before body, Occurs s.toList before body ∧
      m.start = Text.byteLength before ∧ m.path = String.ofList (Text.trim body) := by
  rw [mentions, mem_mentionsFrom_iff]
  obtain ⟨start, path⟩ := m
  simp only [Nat.zero_add, Mention.mk.injEq]

theorem pairwise_mentionsFrom (pos : Nat) (ps : List Part) :
    (∀ m ∈ mentionsFrom pos ps, pos ≤ m.start) ∧
      (mentionsFrom pos ps).Pairwise fun m m' => m.start < m'.start := by
  induction ps generalizing pos with
  | nil => exact ⟨nofun, .nil⟩
  | cons p ps ih =>
    cases p with
    | char c =>
      obtain ⟨hle, hlt⟩ := ih (pos + c.utf8Size)
      exact ⟨fun m hm => Nat.le_trans (Nat.le_add_right _ _) (hle m hm), hlt⟩
    -- it begins here, and the others behind its four braces and its body
    | placeholder body =>
      obtain ⟨hle, hlt⟩ := ih (pos + Text.byteLength body + 4)
      refine ⟨fun m hm => ?_, List.pairwise_cons.mpr ⟨fun m hm => ?_, hlt⟩⟩
      · rcases List.mem_cons.mp hm with rfl | hm
        · exact Nat.le_refl _
        · have := hle m hm
          omega
      · have := hle m hm
        show pos < m.start
        omega

/-- **The mentions stand in the order of the text.** -/
theorem pairwise_mentions (s : String) :
    (mentions s).Pairwise fun m m' => m.start < m'.start :=
  (pairwise_mentionsFrom 0 _).2

/-! ### Readers -/

/-- The paths of the mentions are those that are filled in. -/
theorem map_path_mentionsFrom (pos : Nat) (s : List Char) :
    (mentionsFrom pos (parts s)).map (·.path) =
      (paths s).map fun body => String.ofList (Text.trim body) := by
  rw [paths]
  generalize parts s = ps
  induction ps generalizing pos with
  | nil => rfl
  | cons p ps ih =>
    cases p with
    | char c => exact ih (pos + c.utf8Size)
    | placeholder body => exact congrArg _ (ih (pos + Text.byteLength body + 4))

/-- A text counts as one with placeholders if it mentions something. -/
theorem hasPlaceholder_iff (s : String) : hasPlaceholder s = true ↔ mentions s ≠ [] := by
  have hpaths := congrArg List.length (map_path_mentionsFrom 0 s.toList)
  rw [List.length_map, List.length_map] at hpaths
  rw [hasPlaceholder, Bool.not_eq_true', List.isEmpty_eq_false_iff, ← List.length_pos_iff,
    ← List.length_pos_iff, mentions, hpaths]

theorem resolve_trim (vars : Variables) (path : List Char) :
    vars.resolve (String.ofList (Text.trim path)) = vars.resolve (String.ofList path) := by
  simp only [Variables.resolve, Variables.segments, String.toList_ofList, Text.trim_trim]

/-- What is filled in is read at the mentions. -/
theorem exists_mention {s : String} {body : List Char}
    (h : Part.placeholder body ∈ parts s.toList) :
    ∃ m ∈ mentions s, m.path = String.ofList (Text.trim body) := by
  have hbody : body ∈ paths s.toList := List.mem_filterMap.mpr ⟨_, h, rfl⟩
  have hpath := List.mem_map_of_mem (f := fun body => String.ofList (Text.trim body)) hbody
  rw [← map_path_mentionsFrom 0] at hpath
  exact List.mem_map.mp hpath

/-- **A template depends on the variables at its mentions only.** -/
theorem fill_congr {s : String} {vars vars' : Variables}
    (h : ∀ m ∈ mentions s, vars.resolve m.path = vars'.resolve m.path) :
    fill vars s = fill vars' s := by
  have hparts : ∀ p ∈ parts s.toList, p.fill vars = p.fill vars' := by
    intro p hp
    cases p with
    | char c => rfl
    | placeholder body =>
      -- each placeholder is mentioned, with its path trimmed
      obtain ⟨m, hm, hpath⟩ := exists_mention hp
      have hm := h m hm
      rw [hpath, resolve_trim, resolve_trim] at hm
      rw [Part.fill, Part.fill, hm]
  rw [fill, fill, List.flatMap_congr hparts]

end Template

end Flowgraph

import Flowgraph.Field
import Flowgraph.Proofs.Expression.Depth
import Flowgraph.Proofs.Template.Mentions

/-!
# Placeholders and variables

The text of a field is read as a template, whose placeholders are filled in, or as an expression,
some of whose tokens are variables. A placeholder ends at the first brace of any kind, which has to
be one of two closing ones. A variable ends at the first two closing braces, and only opening braces
are refused before them. So the readers part ways where a single closing brace stands in a path: the
expression has a variable there, and the template has no placeholder. Everywhere else they find the
same paths in the same places.

* `mentions_of_scan` — the placeholders of a text that is cut into tokens are its variables without
  closing braces.
* `fill_congr`, `evaluate_congr` — either reader depends on the variables of a walk at its own
  mentions only.
* `readings_of_scan` — how the readers of a field see a text, and when they find the same.
-/

namespace Flowgraph.Expression

/-- The variable that a token stands for. -/
def Lexeme.mention? (l : Lexeme) : Option Mention :=
  match l.token with
  | .path p => some ⟨l.start, p⟩
  | _ => none

/-- The variables among tokens. -/
def mentions (ls : List Lexeme) : List Mention := ls.filterMap Lexeme.mention?

/-! ### What a variable takes up -/

theorem eq_append_of_cutAtClose {s body after : List Char}
    (h : cutAtClose s = some (body, after)) : s = body ++ '\x7d' :: '\x7d' :: after := by
  induction s using cutAtClose.induct generalizing body with
  | case1 => cases h
  -- the closing braces stand in front
  | case2 rest =>
    rw [cutAtClose] at h
    cases h
    rfl
  | case3 c rest hne ih =>
    rw [cutAtClose] at h
    · obtain ⟨⟨body', after'⟩, hcut, heq⟩ := Option.map_eq_some_iff.mp h
      cases heq
      rw [ih hcut]
      rfl
    · exact hne

/-- **Where a variable stands, there is a placeholder exactly if no closing brace is in it.** -/
theorem placeholder?_of_cutAtClose {inner body after : List Char}
    (h : cutAtClose inner = some (body, after)) (hne : body ≠ []) (hopen : '\x7b' ∉ body) :
    Template.placeholder? ('\x7b' :: '\x7b' :: inner) =
      if '\x7d' ∈ body then none else some (body, after) := by
  split
  · next hclose =>
    -- the body of a placeholder would have been cut off whole
    cases hp : Template.placeholder? ('\x7b' :: '\x7b' :: inner) with
    | none => rfl
    | some r =>
      obtain ⟨path, rest⟩ := r
      obtain ⟨htext, -, hinner⟩ := Template.placeholder?_eq_some_iff.mp hp
      rw [Template.source_placeholder_append] at htext
      -- a placeholder would end where the variable does, and its body would hold no brace
      have hpath : '\x7d' ∉ path := fun hmem => ((Template.isInner_iff _).mp (hinner _ hmem)).2 rfl
      have hcut := cutAtClose_append hpath rest
      rw [← (List.cons.inj (List.cons.inj htext).2).2, h] at hcut
      cases hcut
      exact absurd hclose hpath
  · next hclose =>
    refine Template.placeholder?_eq_some_iff.mpr ⟨?_, hne, fun c hc => ?_⟩
    · rw [Template.source_placeholder_append, ← eq_append_of_cutAtClose h]
    · rw [Template.isInner_iff]
      exact ⟨fun h => hopen (h ▸ hc), fun h => hclose (h ▸ hc)⟩

/-- A path is what is left of the body when the outer blanks go, and holds the same braces. -/
theorem pathOf?_eq_some {body : List Char} {path : String} (h : pathOf? body = some path) :
    body ≠ [] ∧ '\x7b' ∉ body ∧ path = String.ofList (Text.trim body) ∧
      ('\x7d' ∈ path.toList ↔ '\x7d' ∈ body) := by
  unfold pathOf? at h
  dsimp only at h
  split at h
  · cases h
  · next hgood =>
    obtain ⟨hne, hopen⟩ := not_or.mp hgood
    obtain rfl := Option.some.inj h
    refine ⟨?_, ?_, rfl, ?_⟩
    · rintro rfl
      exact hne rfl
    · rwa [Text.mem_trim_iff (by decide)] at hopen
    · rw [String.toList_ofList, Text.mem_trim_iff (by decide)]

/-! ### What other tokens take up -/

theorem utf8Size_of_isNumeric {c : Char} (h : isNumeric c = true) : c.utf8Size = 1 := by
  rw [Char.utf8Size_eq_one_iff]
  simp only [isNumeric, Decimal.isDigit, Bool.or_eq_true, Bool.and_eq_true, decide_eq_true_eq] at h
  rcases h with ⟨-, hle⟩ | rfl
  · exact UInt32.le_trans hle (by decide)
  · decide

theorem byteLength_of_numeric {cs : List Char} (h : ∀ c ∈ cs, isNumeric c = true) :
    Text.byteLength cs = cs.length := by
  induction cs with
  | nil => rfl
  | cons c cs ih =>
    obtain ⟨hc, hcs⟩ := List.forall_mem_cons.mp h
    rw [Text.byteLength, ih hcs, utf8Size_of_isNumeric hc, List.length_cons, Nat.add_comm]

/-- A blank or an operator is a character of one byte that opens no placeholder. -/
theorem single_of_isSpace {c : Char} (h : isSpace c = true) : c ≠ '\x7b' ∧ c.utf8Size = 1 := by
  simp only [isSpace, Bool.or_eq_true, decide_eq_true_eq] at h
  rcases h with ((rfl | rfl) | rfl) | rfl <;> exact ⟨by decide, rfl⟩

theorem single_of_ofChar? {c : Char} {t : Token} (h : Token.ofChar? c = some t) :
    c ≠ '\x7b' ∧ c.utf8Size = 1 ∧ ∀ p, t ≠ .path p := by
  unfold Token.ofChar? at h
  split at h <;> cases h <;> exact ⟨by decide, rfl, nofun⟩

/-! ### Tokens and parts -/

theorem exists_of_map_eq_ok {α β ε : Type} {f : α → β} {r : Except ε α} {b : β}
    (h : r.map f = .ok b) : ∃ a, r = .ok a ∧ b = f a := by
  cases r with
  | error err => cases h
  | ok a =>
    cases h
    exact ⟨a, rfl, rfl⟩

theorem mentions_cons_of_not_path {t : Token} (h : ∀ p, t ≠ .path p) (pos : Nat)
    (ls : List Lexeme) : mentions (⟨t, pos⟩ :: ls) = mentions ls := by
  rw [mentions, List.filterMap_cons]
  cases t with
  | path p => exact absurd rfl (h p)
  | _ => rfl

theorem mentionsFrom_single {c : Char} (hne : c ≠ '\x7b') (hsize : c.utf8Size = 1) (pos : Nat)
    (rest : List Char) : Template.mentionsFrom pos (Template.parts (c :: rest)) =
      Template.mentionsFrom (pos + 1) (Template.parts rest) := by
  rw [Template.parts_of_ne hne, Template.mentionsFrom, hsize]

/-- A number is passed over. It takes all characters of its kind, from its first one on. -/
theorem mentionsFrom_numeric {c : Char} {rest : List Char} (h : isNumeric c = true) (pos : Nat) :
    Template.mentionsFrom pos (Template.parts (c :: rest)) =
      Template.mentionsFrom (pos + ((c :: rest).takeWhile isNumeric).length)
        (Template.parts (rest.dropWhile isNumeric)) := by
  have hall : ∀ d ∈ (c :: rest).takeWhile isNumeric, isNumeric d = true :=
    fun d hd => List.mem_takeWhile_imp hd
  -- no character of a number opens a placeholder
  have hopen : '\x7b' ∉ (c :: rest).takeWhile isNumeric := fun hmem =>
    absurd (hall _ hmem) (by decide)
  have hdrop : (c :: rest).dropWhile isNumeric = rest.dropWhile isNumeric :=
    List.dropWhile_cons_of_pos h
  have hparts := Template.mentionsFrom_append hopen pos (rest.dropWhile isNumeric)
  rw [← hdrop, List.takeWhile_append_dropWhile, byteLength_of_numeric hall] at hparts
  rw [hparts, hdrop]

/-- A variable with a closing brace in its path is passed over as a whole. -/
theorem mentionsFrom_of_close_mem {inner body after : List Char}
    (hcut : cutAtClose inner = some (body, after)) (hne : body ≠ []) (hopen : '\x7b' ∉ body)
    (hmem : '\x7d' ∈ body) (pos : Nat) :
    Template.mentionsFrom pos (Template.parts ('\x7b' :: '\x7b' :: inner)) =
      Template.mentionsFrom (pos + Text.byteLength body + 4) (Template.parts after) := by
  have hfirst := placeholder?_of_cutAtClose hcut hne hopen
  rw [if_pos hmem] at hfirst
  -- no placeholder begins at the first brace, nor at the second or behind it
  have hinner : '\x7b' ∉ body ++ ['\x7d', '\x7d'] := by
    rw [List.mem_append, not_or]
    exact ⟨hopen, by decide⟩
  have hsecond : Template.placeholder? ('\x7b' :: inner) = none := by
    cases hp' : Template.placeholder? ('\x7b' :: inner) with
    | none => rfl
    | some r =>
      obtain ⟨htext, -⟩ := Template.placeholder?_eq_some_iff.mp hp'
      rw [Template.source_placeholder_append, eq_append_of_cutAtClose hcut] at htext
      cases body with
      | nil => exact absurd rfl hne
      | cons d body =>
        have hd : d = '\x7b' := (List.cons.inj (List.cons.inj htext).2).1
        exact absurd List.mem_cons_self (hd ▸ hopen)
  have hsplit : inner = (body ++ ['\x7d', '\x7d']) ++ after := by
    rw [eq_append_of_cutAtClose hcut, List.append_assoc]
    rfl
  have hpos : pos + 1 + 1 + Text.byteLength (body ++ ['\x7d', '\x7d']) =
      pos + Text.byteLength body + 4 := by
    have hclosers : Text.byteLength ['\x7d', '\x7d'] = 2 := rfl
    rw [Text.byteLength_append, hclosers]
    omega
  have hbrace : Char.utf8Size '\x7b' = 1 := rfl
  calc Template.mentionsFrom pos (Template.parts ('\x7b' :: '\x7b' :: inner))
      = Template.mentionsFrom (pos + 1 + 1) (Template.parts inner) := by
        rw [Template.parts_of_none hfirst, Template.mentionsFrom, Template.parts_of_none hsecond,
          Template.mentionsFrom, hbrace]
    _ = Template.mentionsFrom (pos + Text.byteLength body + 4) (Template.parts after) := by
        rw [hsplit, Template.mentionsFrom_append hinner, hpos]

/-- **The placeholders of a text that is cut into tokens** are its variables without closing braces,
from any position on. -/
theorem mentionsFrom_of_scanFrom {pos : Nat} {s : List Char} {ls : List Lexeme}
    (h : Lexeme.scanFrom pos s = .ok ls) :
    Template.mentionsFrom pos (Template.parts s) =
      (mentions ls).filter fun m => '\x7d' ∉ m.path.toList := by
  -- along the scanner: what is no variable opens no placeholder and is passed over
  fun_induction Lexeme.scanFrom pos s generalizing ls with
  | case1 =>
    cases h
    rw [Template.parts]
    rfl
  | case2 pos c rest hspace ih =>
    obtain ⟨hne, hsize⟩ := single_of_isSpace hspace
    rw [mentionsFrom_single hne hsize]
    exact ih h
  | case3 pos c rest hspace t ht ih =>
    obtain ⟨hne, hsize, hpath⟩ := single_of_ofChar? ht
    obtain ⟨ls', hls', rfl⟩ := exists_of_map_eq_ok h
    rw [mentionsFrom_single hne hsize, mentions_cons_of_not_path hpath]
    exact ih hls'
  | case4 => cases h
  | case5 pos c rest hspace hchar hnumeric text x hx =>
    rename_i ih
    obtain ⟨ls', hls', rfl⟩ := exists_of_map_eq_ok h
    have hnumber : ∀ p, Token.number x ≠ .path p := by
      intro p hp
      cases hp
    rw [mentionsFrom_numeric hnumeric, mentions_cons_of_not_path hnumber]
    exact ih hls'
  | case6 => cases h
  | case7 => cases h
  | case8 pos inner body after hcut path hpath hspace hchar hnumeric ih =>
    obtain ⟨ls', hls', rfl⟩ := exists_of_map_eq_ok h
    obtain ⟨hne, hopen, rfl, hclose⟩ := pathOf?_eq_some hpath
    have hcons : mentions (⟨.path (String.ofList (Text.trim body)), pos⟩ :: ls') =
        ⟨pos, String.ofList (Text.trim body)⟩ :: mentions ls' := rfl
    rw [hcons]
    -- a variable is a placeholder unless it has a closing brace in its path
    by_cases hmem : '\x7d' ∈ body
    · rw [mentionsFrom_of_close_mem hcut hne hopen hmem, ih hls', List.filter_cons_of_neg]
      simpa using hclose.mpr hmem
    · have hp := placeholder?_of_cutAtClose hcut hne hopen
      rw [if_neg hmem] at hp
      rw [Template.mentionsFrom_placeholder hp, List.filter_cons_of_pos, ih hls']
      simpa using mt hclose.mp hmem
  | case9 => cases h

/-- **The placeholders of an expression** are its variables without closing braces. -/
theorem mentions_of_scan {text : String} {ls : List Lexeme}
    (h : Lexeme.scan text.toList = .ok ls) :
    Template.mentions text = (mentions ls).filter fun m => '\x7d' ∉ m.path.toList := by
  rw [Lexeme.scan] at h
  split at h
  · cases h
  · cases h
  · next hscan =>
    cases h
    exact mentionsFrom_of_scanFrom hscan

/-! ### What an expression reads -/

theorem Derives.eval_congr {n : Nonterminal} {ts : List Token} {tree : Expr}
    {vars vars' : Variables} (h : Derives n ts tree)
    (hv : ∀ p, .path p ∈ ts → vars.resolve p = vars'.resolve p) :
    tree.eval vars = tree.eval vars' := by
  induction h with
  | ofProduct _ ih => exact ih hv
  | sum _ _ _ iha ihb | product _ _ _ iha ihb =>
    -- the operands have their variables from the whole
    have ha := iha fun p hp => hv p (List.mem_append_left _ hp)
    have hb := ihb fun p hp => hv p (List.mem_append_right _ (List.mem_cons_of_mem _ hp))
    rw [Expr.eval, Expr.eval, ha, hb]
  | ofNegation _ ih => exact ih hv
  | ofPrimary _ ih => exact ih hv
  | negation _ ih =>
    rw [Expr.eval, Expr.eval, ih fun p hp => hv p (List.mem_cons_of_mem _ hp)]
  | number x => rfl
  | path p => rw [Expr.eval, Expr.eval, operand, operand, hv p List.mem_cons_self]
  | brackets _ ih =>
    exact ih fun p hp => hv p (List.mem_cons_of_mem _ (List.mem_append_left _ hp))

/-- **An expression depends on the variables at its mentions only.** -/
theorem evaluate_congr {text : String} {ls : List Lexeme} {vars vars' : Variables}
    (h : Lexeme.scan text.toList = .ok ls)
    (hv : ∀ m ∈ mentions ls, vars.resolve m.path = vars'.resolve m.path) (kind : ValueKind) :
    evaluate kind text vars = evaluate kind text vars' := by
  have hpaths : ∀ p, .path p ∈ ls.map Lexeme.token → vars.resolve p = vars'.resolve p := by
    intro p hp
    obtain ⟨l, hl, htoken⟩ := List.mem_map.mp hp
    refine hv ⟨l.start, p⟩ (List.mem_filterMap.mpr ⟨l, hl, ?_⟩)
    rw [Lexeme.mention?, htoken]
  rw [evaluate, evaluate, h]
  -- a variable that stands alone is looked up, and everything else is a tree
  split
  · rfl
  · next path start heq =>
    cases heq
    rw [hpaths path List.mem_cons_self]
  · next heq =>
    cases heq
    cases hparse : parse text.utf8ByteSize ls with
    | error err => rfl
    | ok tree =>
      dsimp only
      rw [(derives_of_parse hparse).eval_congr hpaths]

/-! ### Agreement -/

/-- How the readers of a field see a text that is cut into tokens. -/
structure Readings (text : String) (ls : List Lexeme) : Prop where
  /-- A template has its placeholders where the pattern occurs. -/
  occurrences : ∀ m, m ∈ Template.mentions text ↔
    ∃ before body, Template.Occurs text.toList before body ∧
      m.start = Text.byteLength before ∧ m.path = String.ofList (Text.trim body)
  inOrder : (Template.mentions text).Pairwise fun m m' => m.start < m'.start
  /-- They are the variables of the expression without closing braces. -/
  placeholders : Template.mentions text =
    (mentions ls).filter fun m => '\x7d' ∉ m.path.toList
  /-- So both readers find the same paths in the same places exactly if no path has one. -/
  agree : Template.mentions text = mentions ls ↔ ∀ m ∈ mentions ls, '\x7d' ∉ m.path.toList
  /-- The check of a field takes the text for one with placeholders if one variable has none. -/
  check : Template.hasPlaceholder text = true ↔ ∃ m ∈ mentions ls, '\x7d' ∉ m.path.toList
  /-- No reader looks at the variables of a walk elsewhere. -/
  elsewhere : ∀ (c : Consumer) (vars vars' : Variables), c.raw = some text →
    (∀ m ∈ mentions ls, vars.resolve m.path = vars'.resolve m.path) →
    c.readString vars = c.readString vars' ∧ c.readDouble vars = c.readDouble vars' ∧
      ∀ kind, c.evaluate kind vars = c.evaluate kind vars'

/-- **When the readers of a field agree**: as long as no variable of the expression has a closing
brace in its path. -/
theorem readings_of_scan (text : String) {ls : List Lexeme}
    (h : Lexeme.scan text.toList = .ok ls) : Readings text ls where
  occurrences _ := Template.mem_mentions_iff
  inOrder := Template.pairwise_mentions text
  placeholders := mentions_of_scan h
  agree := by
    rw [mentions_of_scan h, List.filter_eq_self]
    simp only [decide_eq_true_eq]
  check := by
    rw [Template.hasPlaceholder_iff, mentions_of_scan h, Ne, List.filter_eq_nil_iff]
    simp only [decide_eq_true_eq, not_forall, not_not, exists_prop]
  elsewhere c vars vars' hraw hv := by
    refine ⟨?_, ?_, fun kind => ?_⟩
    · rw [Consumer.readString, Consumer.readString, hraw]
      -- the placeholders are among the variables
      refine Template.fill_congr fun m hm => hv m ?_
      rw [mentions_of_scan h] at hm
      exact List.mem_of_mem_filter hm
    · rw [Consumer.readDouble, Consumer.readDouble, Consumer.withRaw, Consumer.withRaw, hraw]
      simp only [evaluateNumber, evaluate_congr h hv]
    · rw [Consumer.evaluate, Consumer.evaluate, Consumer.withRaw, Consumer.withRaw, hraw]
      simp only [evaluate_congr h hv]

/-- A difference of two variables, of which the second has a closing brace in its path: only the
first is a placeholder. -/
theorem readers_differ_at_second :
    ∃ ls, Lexeme.scan "\x7b\x7b a \x7d\x7d-\x7b\x7bb\x7dc\x7d\x7d".toList = .ok ls ∧
      mentions ls = [⟨0, "a"⟩, ⟨8, "b\x7dc"⟩] ∧
      Template.mentions "\x7b\x7b a \x7d\x7d-\x7b\x7bb\x7dc\x7d\x7d" = [⟨0, "a"⟩] ∧
      Template.hasPlaceholder "\x7b\x7b a \x7d\x7d-\x7b\x7bb\x7dc\x7d\x7d" = true := by
  have hscan : Lexeme.scan "\x7b\x7b a \x7d\x7d-\x7b\x7bb\x7dc\x7d\x7d".toList =
      .ok [⟨.path "a", 0⟩, ⟨.minus, 7⟩, ⟨.path "b\x7dc", 8⟩] := by cbv
  have hr := readings_of_scan _ hscan
  have hvariables : mentions [⟨.path "a", 0⟩, ⟨.minus, 7⟩, ⟨.path "b\x7dc", 8⟩] =
      [⟨0, "a"⟩, ⟨8, "b\x7dc"⟩] := rfl
  -- the brace inside the second body breaks the pattern of a template only
  refine ⟨_, hscan, hvariables, ?_, hr.check.mpr ⟨⟨0, "a"⟩, ?_, by decide⟩⟩
  · rw [hr.placeholders, hvariables]
    decide
  · rw [hvariables]
    exact List.mem_cons_self

/-- **The readers do not always agree.** With a closing brace in a path the expression has the value
of the variable, while the template stands for itself and the field does not pass its check. -/
theorem readers_disagree :
    (∃ ls, Lexeme.scan "\x7b\x7ba\x7db\x7d\x7d".toList = .ok ls ∧
      mentions ls = [⟨0, "a\x7db"⟩] ∧ Template.mentions "\x7b\x7ba\x7db\x7d\x7d" = []) ∧
    ∃ (c : Consumer) (vars : Variables), c.raw = some "\x7b\x7ba\x7db\x7d\x7d" ∧
      c.evaluate .any vars = .ok (.boolean true) ∧
      c.readString vars = "\x7b\x7ba\x7db\x7d\x7d" ∧
      c.check = .error (.expression (.unresolved "a\x7db")) := by
  have hscan : Lexeme.scan "\x7b\x7ba\x7db\x7d\x7d".toList = .ok [⟨.path "a\x7db", 0⟩] := by cbv
  have hparts : Template.parts "\x7b\x7ba\x7db\x7d\x7d".toList =
      "\x7b\x7ba\x7db\x7d\x7d".toList.map .char := by cbv
  refine ⟨⟨_, hscan, rfl, ?_⟩, ?_⟩
  · rw [Template.mentions, hparts]
    rfl
  refine ⟨{ kind := .double, value := some "\x7b\x7ba\x7db\x7d\x7d" },
    StringMap.insert ∅ "a\x7db" (.boolean true), rfl, ?_, ?_, ?_⟩
  · show (evaluate .any "\x7b\x7ba\x7db\x7d\x7d" _).mapError _ = _
    rw [evaluate, hscan]
    rfl
  · show Template.fill _ "\x7b\x7ba\x7db\x7d\x7d" = _
    rw [Template.fill, hparts]
    rfl
  · -- the check evaluates the text under no variables, since it is no template
    have hplain : Template.hasPlaceholder "\x7b\x7ba\x7db\x7d\x7d" = false := by
      rw [Template.hasPlaceholder, Template.paths, hparts]
      rfl
    have hnumber : evaluateNumber "\x7b\x7ba\x7db\x7d\x7d" StringMap.empty =
        .error (.unresolved "a\x7db") := by
      rw [evaluateNumber, evaluate, hscan]
      rfl
    show (if Template.hasPlaceholder "\x7b\x7ba\x7db\x7d\x7d" = true then Except.ok ()
      else ((evaluateNumber "\x7b\x7ba\x7db\x7d\x7d" StringMap.empty).mapError
        FieldFault.expression).map fun _ => ()) = _
    rw [hplain, hnumber]
    rfl

end Flowgraph.Expression

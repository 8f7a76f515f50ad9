/-
**Carriage returns in front of line feeds.**

Many texts end their lines with a carriage return and a line feed.  Leaving this carriage return out
makes no difference to the tokens: blanks may be fewer, a comment or an open literal may be shorter
by a character that does not count, and everything else stays.  Nor does it make a difference to
where the tokens are, as long as lines and columns are counted: only between the carriage return and
the line feed is the column another one, and there no token begins but a line break.

Main definitions:

* `GrammarCatalog.Text.joinReturns` — a text without the carriage returns in front of line feeds;
* `GrammarCatalog.Text.Cursor.SamePlace` — two places agree in line and column, but perhaps in front
  of a line feed;
* `GrammarCatalog.Scan.joined` — the scan of the text without these carriage returns;
* `GrammarCatalog.Token.SameSpot` — two tokens agree in kind, line and column, but line breaks
  perhaps not in the column.

Main results:

* `GrammarCatalog.Lexeme.scan_joinReturns` — every lexeme stays;
* `GrammarCatalog.Scan.StandsAt.step` — the two scans go on alike;
* `GrammarCatalog.Token.forall₂_joined` — **the tokens stay, and where they are**.
-/

import Mathlib.Data.List.Infix
import GrammarCatalog.Proofs.Token.Concatenation
import GrammarCatalog.Proofs.Token.OpenLexemes
import GrammarCatalog.Proofs.Token.Shown

set_option relaxedAutoImplicit false
set_option autoImplicit false

namespace GrammarCatalog

/-! ### Leaving out carriage returns -/

namespace Text

/-- The text in which every pair of a carriage return and a line feed is a line feed alone. -/
def joinReturns : List Char → List Char
  | '\r' :: '\n' :: cs => '\n' :: joinReturns cs
  | c :: cs => c :: joinReturns cs
  | [] => []

/-- A carriage return stands in front of a line feed. -/
def HasPair (cs : List Char) : Prop := ['\r', '\n'] <:+: cs

variable {c : Char} {cs more : List Char}

theorem joinReturns_pair (cs : List Char) :
    joinReturns ('\r' :: '\n' :: cs) = '\n' :: joinReturns cs :=
  rfl

theorem joinReturns_cons (h : c = '\r' → cs.head? ≠ some '\n') :
    joinReturns (c :: cs) = c :: joinReturns cs := by
  rw [joinReturns]
  rintro rest rfl rfl
  exact h rfl rfl

/-- What does not end in front of a line feed is joined by itself. -/
theorem joinReturns_append (h : cs.getLast? = some '\r' → more.head? ≠ some '\n') :
    joinReturns (cs ++ more) = joinReturns cs ++ joinReturns more := by
  fun_induction joinReturns cs with
  | case1 cs ih =>
      rw [List.cons_append, List.cons_append, joinReturns_pair, ih, List.cons_append]
      intro hlast
      exact h (by simp [List.getLast?_cons, hlast])
  | case2 c cs hpair ih =>
      have hcons : joinReturns (c :: (cs ++ more)) = c :: joinReturns (cs ++ more) := by
        refine joinReturns_cons ?_
        rintro rfl hhead
        cases cs with
        | nil => exact h rfl hhead
        | cons d cs =>
            obtain rfl : d = '\n' := by simpa using hhead
            exact hpair cs rfl rfl
      rw [List.cons_append, hcons, ih, List.cons_append]
      intro hlast
      exact h (by simp [List.getLast?_cons, hlast])
  | case3 => rfl

/-- Nothing is left out of a text without a pair. -/
theorem joinReturns_of_not_hasPair (h : ¬HasPair cs) : joinReturns cs = cs := by
  fun_induction joinReturns cs with
  | case1 cs ih => exact absurd ⟨[], cs, rfl⟩ h
  | case2 c cs _ ih =>
      rw [ih]
      intro hpair
      exact h (hpair.trans (List.suffix_cons c cs).isInfix)
  | case3 => rfl

/-- A text has no pair, or a first one. -/
theorem exists_first_pair (cs : List Char) : ¬HasPair cs ∨
    ∃ front more, cs = front ++ '\r' :: '\n' :: more ∧ ¬HasPair front := by
  fun_induction joinReturns cs with
  | case1 cs ih => exact Or.inr ⟨[], cs, rfl, by simp [HasPair]⟩
  | case2 c cs hpair ih =>
      have hcons {front : List Char} (hfront : front.head? = some '\n' → cs.head? = some '\n')
          (h : ¬HasPair front) : ¬HasPair (c :: front) := by
        intro hinfix
        rcases List.infix_cons_iff.1 hinfix with hprefix | hinfix
        · obtain ⟨rest, heq⟩ := hprefix
          obtain ⟨rfl, rfl⟩ := List.cons.inj heq
          obtain ⟨more, rfl⟩ := List.head?_eq_some_iff.1 (hfront rfl)
          exact hpair more rfl rfl
        · exact h hinfix
      rcases ih with ih | ⟨front, more, rfl, hfront⟩
      · exact Or.inl (hcons id ih)
      · refine Or.inr ⟨c :: front, more, rfl, hcons ?_ hfront⟩
        intro hhead
        cases front with
        | nil => simp at hhead
        | cons d front => simpa using hhead
  | case3 => exact Or.inl (by simp [HasPair])

theorem mem_of_mem_joinReturns {d : Char} (h : d ∈ joinReturns cs) : d ∈ cs := by
  fun_induction joinReturns cs with
  | case1 cs ih =>
      rcases List.mem_cons.1 h with rfl | h
      · simp
      · exact List.mem_cons_of_mem _ (List.mem_cons_of_mem _ (ih h))
  | case2 c cs _ ih =>
      rcases List.mem_cons.1 h with rfl | h
      · exact List.mem_cons_self
      · exact List.mem_cons_of_mem _ (ih h)
  | case3 => exact h

theorem newline_mem_joinReturns_iff (cs : List Char) : '\n' ∈ joinReturns cs ↔ '\n' ∈ cs := by
  fun_induction joinReturns cs with
  | case1 cs ih => simp
  | case2 c cs _ ih => rw [List.mem_cons, List.mem_cons, ih]
  | case3 => rfl

/-- What comes first stays, unless it is a carriage return. -/
theorem joinReturns_cons_of_ne (h : c ≠ '\r') (cs : List Char) :
    joinReturns (c :: cs) = c :: joinReturns cs :=
  joinReturns_cons fun hc => absurd hc h

theorem exists_eq_cons_of_joinReturns (hc : c ≠ '\n') (h : joinReturns cs = c :: more) :
    ∃ rest, cs = c :: rest := by
  fun_cases joinReturns cs with
  | case1 rest => exact absurd (List.cons.inj h).1.symm hc
  | case2 d rest hpair =>
      rw [joinReturns_cons fun hd hhead => ?_] at h
      · obtain rfl := (List.cons.inj h).1
        exact ⟨rest, rfl⟩
      · obtain ⟨more, rfl⟩ := List.head?_eq_some_iff.1 hhead
        exact hpair more hd rfl
  | case3 => contradiction

theorem ne_return_of_not_blank (h : isBlank c = false) : c ≠ '\r' := by
  rintro rfl
  exact absurd h (by decide)

/-! ### Places -/

namespace Cursor

variable {place place' : Cursor}

/-- Two places agree in line and column, but perhaps not in the column in front of a line feed. -/
def SamePlace (more : List Char) (place place' : Cursor) : Prop :=
  place.line = place'.line ∧ (more.head? = some '\n' ∨ place.column = place'.column)

/-- Past a text and past the same without its pairs, places still agree. -/
theorem SamePlace.advance (h : SamePlace (cs ++ more) place place')
    (hlast : cs.getLast? = some '\r' → more.head? ≠ some '\n') :
    SamePlace more (place.advance cs) (place'.advance (joinReturns cs)) := by
  fun_induction joinReturns cs generalizing place place' with
  | case1 cs ih =>
      rw [advance_cons, advance_cons, advance_cons]
      refine ih ⟨congrArg (· + 1) h.1, Or.inr rfl⟩ fun hreturn => hlast ?_
      simp [List.getLast?_cons, hreturn]
  | case2 c cs _ ih =>
      rw [advance_cons, advance_cons]
      refine ih ?_ fun hreturn => hlast ?_
      · obtain ⟨hline, hcolumn⟩ := h
        by_cases hc : c = '\n'
        · subst hc
          exact ⟨congrArg (· + 1) hline, Or.inr rfl⟩
        · have hcolumn := hcolumn.resolve_left (by simpa using hc)
          simp only [SamePlace, step, if_neg hc]
          exact ⟨hline, Or.inr (congrArg (· + 1) hcolumn)⟩
      · simp [List.getLast?_cons, hreturn]
  | case3 => exact h

/-- On one line, columns count characters. -/
theorem advance_of_newline_notMem (h : '\n' ∉ cs) (place : Cursor) :
    (place.advance cs).line = place.line ∧
      (place.advance cs).column = place.column + cs.length := by
  induction cs generalizing place with
  | nil => exact ⟨rfl, rfl⟩
  | cons c cs ih =>
      rw [List.mem_cons, not_or] at h
      obtain ⟨hc, hcs⟩ := h
      obtain ⟨hline, hcolumn⟩ := ih hcs (place.step c)
      rw [advance_cons, hline, hcolumn, step, if_neg (Ne.symm hc), List.length_cons]
      refine ⟨rfl, ?_⟩
      change place.column + 1 + cs.length = place.column + (cs.length + 1)
      omega

end Cursor

end Text

/-! ### What comes next -/

open Text (HasPair joinReturns isBlank isSpacing)

namespace Scan

theorem leadsToPipe_joinReturns (flag : Bool) (cs : List Char) :
    leadsToPipe flag (joinReturns cs) = leadsToPipe flag cs := by
  fun_induction joinReturns cs generalizing flag with
  | case1 cs ih =>
      cases flag with
      | false =>
          rw [leadsToPipe_cons_of_blank (by decide), leadsToPipe_cons_of_blank (by decide),
            leadsToPipe_cons_of_blank (by decide), ih]
      | true => exact ih false
  | case2 c cs hpair ih =>
      cases flag with
      | true => exact ih _
      | false =>
          by_cases hpipe : c = '|'
          · subst hpipe
            rfl
          by_cases hhash : c = '#'
          · subst hhash
            exact ih true
          by_cases hslash : c = '/' ∧ ∃ more, cs = '/' :: more
          · obtain ⟨rfl, more, rfl⟩ := hslash
            exact ih true
          have hcs : ∀ more, c = '/' → cs = '/' :: more → False := by
            intro more hc hmore
            exact hslash ⟨hc, more, hmore⟩
          have hjoined : ∀ more, c = '/' → joinReturns cs = '/' :: more → False := by
            intro more hc hmore
            obtain ⟨rest, rfl⟩ := Text.exists_eq_cons_of_joinReturns (by decide) hmore
            exact hcs rest hc rfl
          rw [leadsToPipe.eq_6 _ _ hpipe hhash hcs, leadsToPipe.eq_6 _ _ hpipe hhash hjoined, ih]
  | case3 => rfl

end Scan

namespace Lexeme

variable {opening : Bool} {c : Char} {cs : List Char}

theorem rest_suffix (opening : Bool) (c : Char) (cs : List Char) :
    (scan opening c cs).rest <:+ cs := by
  have happend := text_append_rest_scan opening c cs
  cases htext : (scan opening c cs).text with
  | nil => exact absurd htext (text_scan_ne_nil opening c cs)
  | cons d text =>
      rw [htext] at happend
      exact ⟨text, (List.cons.inj happend).2⟩

/-- **Every lexeme stays** where carriage returns in front of line feeds are left out, but it may
end before one of them. -/
theorem scan_joinReturns (opening : Bool) (c : Char) (cs : List Char) :
    (scan opening c (joinReturns cs)).kind = (scan opening c cs).kind ∧
      (scan opening c (joinReturns cs)).rest = joinReturns (scan opening c cs).rest ∧
      ((scan opening c (joinReturns cs)).text = (scan opening c cs).text ∨
        (scan opening c cs).rest.head? = some '\n' ∧
          (scan opening c cs).text = (scan opening c (joinReturns cs)).text ++ ['\r']) := by
  have hrest {line : List Char} (h : ¬HasPair line) :
      joinReturns (scan opening c line).rest = (scan opening c line).rest := by
    refine Text.joinReturns_of_not_hasPair fun hpair => h ?_
    exact hpair.trans (rest_suffix opening c line).isInfix
  rcases Text.exists_first_pair cs with h | ⟨line, more, rfl, h⟩
  · rw [Text.joinReturns_of_not_hasPair h]
    exact ⟨rfl, (hrest h).symm, Or.inl rfl⟩
  have hjoined : joinReturns (line ++ '\r' :: '\n' :: more) = line ++ '\n' :: joinReturns more := by
    rw [Text.joinReturns_append fun _ => by simp, Text.joinReturns_of_not_hasPair h,
      Text.joinReturns_pair]
  have hreturn : line ++ '\r' :: '\n' :: more = (line ++ ['\r']) ++ '\n' :: more := by simp
  rw [hjoined, hreturn, scan_append_newline, scan_append_newline]
  rcases scan_append_return opening c line with heq | ⟨hnil, heq⟩
  · -- the carriage return is left
    rw [heq]
    refine ⟨rfl, ?_, Or.inl rfl⟩
    change (scan opening c line).rest ++ _ =
      joinReturns (((scan opening c line).rest ++ ['\r']) ++ '\n' :: more)
    rw [List.append_assoc, Text.joinReturns_append fun _ => by simp, hrest h]
    rfl
  · -- the carriage return is taken
    rw [heq]
    refine ⟨rfl, ?_, Or.inr ⟨rfl, rfl⟩⟩
    change (scan opening c line).rest ++ _ = joinReturns ([] ++ '\n' :: more)
    rw [hnil, List.nil_append, List.nil_append, Text.joinReturns_cons_of_ne (by decide)]

end Lexeme

/-! ### Scans -/

/-- Two tokens agree in kind and line, and in the column as well if they are no line breaks. -/
structure Token.SameSpot (token token' : Token) : Prop where
  /-- They are the same. -/
  kind : token'.kind = token.kind
  /-- They are on the same line. -/
  line : token.span.line = token'.span.line
  /-- They are in the same column, but perhaps not if they are line breaks. -/
  column : token.kind = .newline ∨ token.span.column = token'.span.column

namespace Scan

/-- The scan of the text that is left without carriage returns in front of line feeds, at another
place. -/
def joined (scan : Scan) (place : Text.Cursor) : Scan :=
  { scan with rest := joinReturns scan.rest, cursor := place }

/-- The place of a scan agrees with another one. -/
def StandsAt (scan : Scan) (place : Text.Cursor) : Prop :=
  Text.Cursor.SamePlace scan.rest scan.cursor place

variable {scan after : Scan} {token : Token} {place : Text.Cursor}

theorem isBlank_of_mem_joinReturns {gap : List Char} (h : ∀ c ∈ gap, isBlank c = true) :
    ∀ c ∈ joinReturns gap, isBlank c = true :=
  fun c hc => h c (Text.mem_of_mem_joinReturns hc)

/-- Blanks in front of something visible are joined by themselves. -/
theorem joinReturns_gap {gap rest : List Char} (h : ∀ c ∈ rest.head?, isBlank c = false) :
    joinReturns (gap ++ rest) = joinReturns gap ++ joinReturns rest := by
  refine Text.joinReturns_append fun _ hhead => ?_
  exact absurd (h '\n' hhead) (by decide)

/-- Spaces in front of line breaks are joined to some of them. -/
theorem exists_joinReturns_spaces {spaces breaks : List Char}
    (h : ∀ c ∈ spaces, isSpacing c = true) (hfirst : breaks.head? = some '\n') :
    ∃ spaces', joinReturns (spaces ++ breaks) = spaces' ++ joinReturns breaks ∧
      ∀ c ∈ spaces', isSpacing c = true := by
  obtain ⟨more, rfl⟩ := List.head?_eq_some_iff.1 hfirst
  have hpair {front : List Char} (hfront : ∀ c ∈ front, c ∈ spaces) : ¬HasPair front := by
    intro hinfix
    have hmem : '\n' ∈ front := hinfix.subset (by simp)
    exact absurd (h _ (hfront _ hmem)) (by decide)
  by_cases hlast : spaces.getLast? = some '\r'
  · obtain ⟨front, rfl⟩ := List.getLast?_eq_some_iff.1 hlast
    refine ⟨front, ?_, fun c hc => h c (List.mem_append_left _ hc)⟩
    rw [List.append_assoc, List.singleton_append, Text.joinReturns_append fun _ => by simp,
      Text.joinReturns_of_not_hasPair (hpair fun c hc => List.mem_append_left _ hc),
      Text.joinReturns_pair, Text.joinReturns_cons_of_ne (by decide)]
  · refine ⟨spaces, ?_, h⟩
    rw [Text.joinReturns_append fun hreturn => absurd hreturn hlast,
      Text.joinReturns_of_not_hasPair (hpair fun c hc => hc)]

/-- Past a gap in front of something visible, places agree in the column as well. -/
theorem StandsAt.past {gap rest : List Char} (h : scan.StandsAt place)
    (hrest : scan.rest = gap ++ rest) (hnext : ∀ c ∈ rest.head?, isBlank c = false) :
    (scan.cursor.advance gap).line = (place.advance (joinReturns gap)).line ∧
      (scan.cursor.advance gap).column = (place.advance (joinReturns gap)).column := by
  have hnewline : rest.head? ≠ some '\n' := by
    intro hhead
    exact absurd (hnext '\n' hhead) (by decide)
  unfold StandsAt at h
  rw [hrest] at h
  obtain ⟨hline, hcolumn⟩ := h.advance fun _ => hnewline
  exact ⟨hline, hcolumn.resolve_left hnewline⟩

/-- Two scans go on alike: to tokens that agree, and to places that agree. -/
def GoAlike (scan : Scan) (place : Text.Cursor) (next : Token × Scan) : Prop :=
  ∃ token place', Step (scan.joined place) (token, next.2.joined place') ∧
    next.2.StandsAt place' ∧ next.1.SameSpot token

theorem StandsAt.finish (h : scan.StandsAt place) (hgap : ∀ c ∈ scan.rest, isBlank c = true)
    (hline : '\n' ∈ scan.rest → scan.afterNewline = true) : scan.GoAlike place
      (⟨.endOfInput, (scan.cursor.advance scan.rest).spanOf []⟩, scan.past scan.rest []) := by
  obtain ⟨hl, hc⟩ := h.past (List.append_nil _).symm (by simp)
  refine ⟨_, place.advance (joinReturns scan.rest),
    .finish (isBlank_of_mem_joinReturns hgap) ?_, ⟨hl, Or.inr hc⟩, ⟨rfl, hl, Or.inr hc⟩⟩
  intro hmem
  exact hline ((Text.newline_mem_joinReturns_iff _).1 hmem)

theorem StandsAt.newline {spaces breaks rest : List Char} (h : scan.StandsAt place)
    (hrest : scan.rest = spaces ++ (breaks ++ rest)) (hspaces : ∀ c ∈ spaces, isSpacing c = true)
    (hbreaks : ∀ c ∈ breaks, isBlank c = true) (hfirst : breaks.head? = some '\n')
    (hnext : ∀ c ∈ rest.head?, isBlank c = false) (hafter : scan.afterNewline = false)
    (hpipe : leadsToPipe false rest = false) :
    scan.GoAlike place ((scan.past spaces (breaks ++ rest)).emit .newline breaks rest) := by
  obtain ⟨spaces', hspaces', hall⟩ := exists_joinReturns_spaces hspaces hfirst
  have hrest' : (scan.joined place).rest = spaces' ++ (joinReturns breaks ++ joinReturns rest) := by
    change joinReturns scan.rest = _
    rw [hrest, ← List.append_assoc, joinReturns_gap hnext, hspaces', List.append_assoc]
  have hfirst' : (joinReturns breaks).head? = some '\n' := by
    obtain ⟨more, rfl⟩ := List.head?_eq_some_iff.1 hfirst
    rw [Text.joinReturns_cons_of_ne (by decide)]
    rfl
  have hnext' : ∀ c ∈ (joinReturns rest).head?, isBlank c = false := by
    cases rest with
    | nil => exact hnext
    | cons c rest =>
        rw [Text.joinReturns_cons_of_ne (Text.ne_return_of_not_blank (hnext c rfl))]
        exact hnext
  have hpipe' : leadsToPipe false (joinReturns rest) = false := by
    rw [leadsToPipe_joinReturns, hpipe]
  -- spaces are on one line
  have hline {spaces : List Char} (hspaces : ∀ c ∈ spaces, isSpacing c = true)
      (place : Text.Cursor) : (place.advance spaces).line = place.line := by
    refine (Text.Cursor.advance_of_newline_notMem (fun hmem => ?_) place).1
    exact absurd (hspaces '\n' hmem) (by decide)
  obtain ⟨hl, hc⟩ := h.past (hrest.trans (List.append_assoc _ _ _).symm) hnext
  rw [hspaces', Text.Cursor.advance_append, Text.Cursor.advance_append] at hl hc
  have hstep := Step.newline hrest' hall (isBlank_of_mem_joinReturns hbreaks) hfirst' hnext' hafter
    hpipe'
  refine ⟨_, _, hstep, ⟨hl, Or.inr hc⟩, ⟨rfl, ?_, Or.inl rfl⟩⟩
  exact (hline hspaces _).trans (h.1.trans (hline hall _).symm)

theorem StandsAt.lexeme {gap : List Char} {c : Char} {cs : List Char} (h : scan.StandsAt place)
    (hrest : scan.rest = gap ++ c :: cs) (hgap : ∀ d ∈ gap, isBlank d = true)
    (hc : isBlank c = false)
    (hline : '\n' ∈ gap → scan.afterNewline = true ∨ leadsToPipe false (c :: cs) = true) :
    scan.GoAlike place ((scan.past gap (c :: cs)).emit (Lexeme.scan scan.opening c cs).kind
      (Lexeme.scan scan.opening c cs).text (Lexeme.scan scan.opening c cs).rest) := by
  have hcons := Text.joinReturns_cons_of_ne (Text.ne_return_of_not_blank hc) cs
  have hnext : ∀ d ∈ (c :: cs).head?, isBlank d = false := by simpa using hc
  have hrest' : (scan.joined place).rest = joinReturns gap ++ c :: joinReturns cs := by
    change joinReturns scan.rest = _
    rw [hrest, joinReturns_gap hnext, hcons]
  have hline' : '\n' ∈ joinReturns gap → scan.afterNewline = true ∨
      leadsToPipe false (c :: joinReturns cs) = true := by
    rw [Text.newline_mem_joinReturns_iff, ← hcons, leadsToPipe_joinReturns]
    exact hline
  obtain ⟨hl, hcolumn⟩ := h.past hrest hnext
  obtain ⟨hkind, hlexeme, htext⟩ := Lexeme.scan_joinReturns scan.opening c cs
  -- a lexeme is on one line
  have hplace (cs : List Char) (place : Text.Cursor) := Text.Cursor.advance_of_newline_notMem
    (Lexeme.newline_notMem_text_scan hc scan.opening cs) place
  have hstep := Step.lexeme hrest' (isBlank_of_mem_joinReturns hgap) hc hline'
  generalize hnext : ((scan.joined place).past (joinReturns gap) (c :: joinReturns cs)).emit
    (Lexeme.scan scan.opening c (joinReturns cs)).kind
    (Lexeme.scan scan.opening c (joinReturns cs)).text
    (Lexeme.scan scan.opening c (joinReturns cs)).rest = next
  have hjoined : (((scan.past gap (c :: cs)).emit (Lexeme.scan scan.opening c cs).kind
      (Lexeme.scan scan.opening c cs).text (Lexeme.scan scan.opening c cs).rest).2).joined
        next.2.cursor = next.2 := by
    simp only [← hnext, emit, joined, hkind, hlexeme]
    rfl
  refine ⟨next.1, next.2.cursor, ?_, ⟨?_, ?_⟩, ?_⟩
  · rw [hjoined]
    exact hnext ▸ hstep
  · subst hnext
    exact ((hplace cs _).1.trans hl).trans (hplace _ _).1.symm
  · subst hnext
    refine htext.symm.imp And.left fun htext => ?_
    refine ((hplace cs _).2.trans ?_).trans (hplace _ _).2.symm
    rw [htext]
    exact congrArg (· + _) hcolumn
  · subst hnext
    exact ⟨hkind, hl, Or.inr hcolumn⟩

/-- **The two scans go on alike.** -/
theorem StandsAt.step {next : Token × Scan} (h : scan.StandsAt place) (hstep : Step scan next) :
    scan.GoAlike place next := by
  cases hstep with
  | finish hgap hline => exact h.finish hgap hline
  | newline hrest hspaces hbreaks hfirst hnext hafter hpipe =>
      exact h.newline hrest hspaces hbreaks hfirst hnext hafter hpipe
  | lexeme hrest hgap hc hline => exact h.lexeme hrest hgap hc hline

/-- **The tokens stay** where the two scans go on alike. -/
theorem StandsAt.forall₂_tokens (h : scan.StandsAt place) :
    List.Forall₂ Token.SameSpot scan.tokens (scan.joined place).tokens := by
  refine tokens_induction (motive := fun scan tokens => ∀ place, scan.StandsAt place →
    List.Forall₂ Token.SameSpot tokens (scan.joined place).tokens) ?_ ?_ scan place h
  · intro scan token after hstep hend place h
    obtain ⟨token', place', hstep', -, htoken⟩ := h.step hstep
    rw [tokens_of_step hstep', if_pos (htoken.kind.trans hend)]
    exact .cons htoken .nil
  · intro scan token after hstep hkind ih place h
    obtain ⟨token', place', hstep', hafter, htoken⟩ := h.step hstep
    rw [tokens_of_step hstep', if_neg (by rwa [htoken.kind])]
    exact .cons htoken (ih place' hafter)

end Scan

/-! ### Texts -/

/-- The text in which every pair of a carriage return and a line feed is a line feed alone. -/
def Text.joined (source : String) : String := String.ofList (joinReturns source.toList)

/-- **The tokens of a text stay** where carriage returns in front of line feeds are left out, and so
do their lines and columns, but for the columns of line breaks. -/
theorem Token.forall₂_joined (source : String) :
    List.Forall₂ SameSpot (ofSource source) (ofSource (Text.joined source)) := by
  have hplace : (Scan.ofSource source).StandsAt Text.Cursor.origin := ⟨rfl, Or.inr rfl⟩
  have htokens := hplace.forall₂_tokens
  have hjoined : (Scan.ofSource source).joined Text.Cursor.origin =
      Scan.ofSource (Text.joined source) := by
    rw [Scan.joined, Scan.ofSource, Scan.ofSource, Text.joined, String.toList_ofList]
  rwa [hjoined] at htokens

end GrammarCatalog

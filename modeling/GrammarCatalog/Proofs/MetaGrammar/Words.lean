/-
**Derivations and the words of the meta-grammar.**

The tokens that a derivation takes spell a word of the phrase's language, and every word of that
language has a derivation: the derivations of trees are derivations of the meta-grammar with trees
attached.

Main definitions:

* `GrammarCatalog.Phrase.language` — the language of a phrase.

Main results:

* `GrammarCatalog.Phrase.Derives.spells` — a derivation spells a word;
* `GrammarCatalog.Phrase.exists_derives_lines` — a word of lines has a derivation.
-/

import GrammarCatalog.Proofs.MetaGrammar.Derivation

set_option relaxedAutoImplicit false
set_option autoImplicit false

namespace GrammarCatalog

open scoped Computability

/-! ### Spelling a product, part by part -/

namespace MetaGrammar.Spells

variable {language other : Language TokenKind} {s m r : TokenStream}

theorem one : Spells 1 r r := spells_one.2 rfl

theorem mul (h : Spells language s m) (h' : Spells other m r) : Spells (language * other) s r :=
  spells_mul.2 ⟨m, h, h'⟩

theorem left (h : Spells language s r) : Spells (language + other) s r := spells_add.2 (Or.inl h)

theorem right (h : Spells other s r) : Spells (language + other) s r := spells_add.2 (Or.inr h)

theorem token {suits : TokenKind → Bool} {t : Token} (ht : suits t.kind = true) :
    Spells (MetaGrammar.token suits) (r.cons t) r := spells_token.2 ⟨t, ht, rfl⟩

theorem sign {which : Punctuation} {t : Token} (ht : t.kind = .punctuation which) :
    Spells (MetaGrammar.sign which) (r.cons t) r := spells_sign.2 ⟨t, ht, rfl⟩

theorem none : Spells (optional language) r r := spells_optional.2 (Or.inl rfl)

theorem some (h : Spells language s r) : Spells (optional language) s r :=
  spells_optional.2 (Or.inr h)

theorem kstar_nil : Spells language∗ r r := spells_kstar.2 (Or.inl rfl)

theorem kstar_cons (h : Spells language s m) (h' : Spells language∗ m r) : Spells language∗ s r :=
  spells_kstar.2 (Or.inr ⟨m, h, h'⟩)

theorem listOf_one {separator : Punctuation} (h : Spells language s r) :
    Spells (listOf separator language) s r := spells_listOf.2 (Or.inl h)

theorem listOf_cons {separator : Punctuation} {t : Token} (h : Spells language s (m.cons t))
    (ht : t.kind = .punctuation separator) (h' : Spells (listOf separator language) m r) :
    Spells (listOf separator language) s r := spells_listOf.2 (Or.inr ⟨t, m, ht, h, h'⟩)

end MetaGrammar.Spells

/-! ### Derivations spell words -/

namespace Phrase

/-- The language of a phrase, in which groups and arguments may be nested to the given depth. -/
def language : Phrase → ℕ → Language TokenKind
  | value, n => MetaGrammar.value n
  | arguments, n => MetaGrammar.listOf .comma (MetaGrammar.value n)
  | atom, n => MetaGrammar.atom n
  | item, n => MetaGrammar.item (MetaGrammar.atom n)
  | items, n => (MetaGrammar.item (MetaGrammar.atom n))∗
  | alternative aliases, n => MetaGrammar.alternative aliases (MetaGrammar.atom n)
  | alternatives aliases, n | expansions aliases, n => MetaGrammar.expansions n aliases
  | names separator suits, _ => MetaGrammar.listOf separator (MetaGrammar.token suits)
  | params, _ => MetaGrammar.params
  | priority, _ => MetaGrammar.priority
  | definition, n => MetaGrammar.definition n
  | path, _ => MetaGrammar.path
  | declared, _ => MetaGrammar.token TokenKind.isName * (MetaGrammar.token TokenKind.isName)∗
  | statement, n => MetaGrammar.statement n
  | lines, n => MetaGrammar.lines n

open MetaGrammar (Spells listOf spells_one spells_add spells_mul spells_token spells_sign
  spells_optional)

/-- Literals and names are values at every depth. -/
theorem spells_value_of_literal {n : ℕ} {s r : TokenStream}
    (h : Spells MetaGrammar.literal s r) : Spells (MetaGrammar.value n) s r := by
  cases n with
  | zero => exact h
  | succ n => exact .left h

/-- A token that is a value by itself is a literal. -/
theorem spells_literal_of_isValue {t : Token} {r : TokenStream} (ht : t.kind.isValue = true) :
    Spells MetaGrammar.literal (r.cons t) r := by
  simp only [TokenKind.isValue, TokenKind.isName, Bool.or_eq_true] at ht
  rcases ht with (hstring | hregexp) | hrule | hterminal
  · exact .left (.left (.left (.left (.token hstring))))
  · exact .left (.left (.right (.token hregexp)))
  · exact .right (.token hrule)
  · exact .left (.right (.token hterminal))

/-- Values are atoms at every depth. -/
theorem spells_atom_of_value {n : ℕ} {s r : TokenStream}
    (h : Spells (MetaGrammar.value n) s r) : Spells (MetaGrammar.atom n) s r := by
  cases n with
  | zero => exact h
  | succ n => exact .left h

theorem spells_operator_of_isOperator {t : Token} {r : TokenStream}
    (ht : t.kind.isOperator = true) : Spells MetaGrammar.operator (r.cons t) r := by
  unfold TokenKind.isOperator at ht
  split at ht
  · rename_i hkind; exact .left (.left (.left (.sign hkind)))
  · rename_i hkind; exact .left (.left (.right (.sign hkind)))
  · rename_i hkind; exact .left (.right (.sign hkind))
  · contradiction

/-- **A derivation spells a word**: the tokens that it takes belong to the language of its
phrase. -/
theorem Derives.spells {phrase : Phrase} {n : ℕ} {s r : TokenStream} {slots : List Child}
    (h : phrase.Derives n s r slots) : Spells (phrase.language n) s r := by
  induction h with
  | token ht => exact spells_value_of_literal (spells_literal_of_isValue ht)
  | range hlow hdots hhigh =>
      refine spells_value_of_literal (.left (.left (.left (.right ?_))))
      exact ((Spells.token hlow).mul (.sign hdots)).mul (.token hhigh)
  | usage hname hopening _ hclosing ih =>
      exact .right ((((Spells.token hname).mul (.sign hopening)).mul ih).mul (.sign hclosing))
  | lastArgument _ ih => exact .listOf_one ih
  | argument _ hcomma _ ih ih' => exact .listOf_cons ih hcomma ih'
  | single _ ih => exact spells_atom_of_value ih
  | parens hopening _ hclosing ih =>
      exact .right (.left (((Spells.sign hopening).mul ih).mul (.sign hclosing)))
  | brackets hopening _ hclosing ih =>
      exact .right (.right (((Spells.sign hopening).mul ih).mul (.sign hclosing)))
  | plain _ ih => exact ih.mul .none
  | operated _ hoperator ih => exact ih.mul (.some (spells_operator_of_isOperator hoperator))
  | counted _ htilde hcount ih =>
      exact ih.mul (.some (.right (((Spells.sign htilde).mul (.token hcount)).mul .none)))
  | countedUpTo _ htilde hcount hdots hupper ih =>
      refine ih.mul (.some (.right (((Spells.sign htilde).mul (.token hcount)).mul ?_)))
      exact .some ((Spells.sign hdots).mul (.token hupper))
  | noItem => exact .kstar_nil
  | items _ _ ih ih' => exact .kstar_cons ih ih'
  | @unnamed n aliases s r items _ ih =>
      refine ih.mul ?_
      cases aliases with
      | false => exact .one
      | true => exact .none
  | named _ harrow htarget ih =>
      exact ih.mul (.some ((Spells.sign harrow).mul (.token htarget)))
  | lastAlternative _ ih =>
      rw [language, MetaGrammar.expansions_eq]
      exact .listOf_one ih
  | alternative _ hpipe _ ih ih' =>
      rw [language, MetaGrammar.expansions_eq] at ih' ⊢
      exact .listOf_cons ih hpipe ih'
  | expansions _ ih => exact ih
  | lastName ht => exact .listOf_one (.token ht)
  | name ht hsign _ ih => exact .listOf_cons (.token ht) hsign ih
  | noParams => exact .none
  | params hopening _ hclosing ih =>
      exact .some (((Spells.sign hopening).mul ih).mul (.sign hclosing))
  | noPriority => exact .none
  | priority hdot hnumber => exact .some ((Spells.sign hdot).mul (.token hnumber))
  | rule hname _ _ hcolon _ ihparams ihpriority ihbody =>
      exact .left
        (((((Spells.token hname).mul ihparams).mul ihpriority).mul (.sign hcolon)).mul ihbody)
  | term hname _ hcolon _ ihpriority ihbody =>
      exact .right ((((Spells.token hname).mul ihpriority).mul (.sign hcolon)).mul ihbody)
  | path _ ih => exact Spells.none.mul ih
  | relativePath hdot _ ih => exact (Spells.some (.sign hdot)).mul ih
  | lastDeclared ht => exact (Spells.token ht).mul .kstar_nil
  | declared ht _ ih =>
      obtain ⟨m, hfirst, hothers⟩ := spells_mul.1 ih
      exact (Spells.token ht).mul (.kstar_cons hfirst hothers)
  | defines _ ih => exact .left (.left (.left (.left ih)))
  | ignore hdirective _ ih =>
      exact .left (.left (.left (.right ((Spells.token hdirective).mul ih))))
  | importPath hdirective _ ih =>
      exact .left (.left (.right ((Spells.token hdirective).mul (.left (ih.mul .none)))))
  | importAs hdirective _ harrow htarget ih =>
      refine .left (.left (.right ((Spells.token hdirective).mul (.left ?_))))
      exact ih.mul (.some ((Spells.sign harrow).mul (.token htarget)))
  | importNames hdirective _ hopening _ hclosing ihpath ihnames =>
      refine .left (.left (.right ((Spells.token hdirective).mul (.right ?_))))
      exact ((ihpath.mul (.sign hopening)).mul ihnames).mul (.sign hclosing)
  | declare hdirective _ ih =>
      obtain ⟨m, hfirst, hothers⟩ := spells_mul.1 ih
      exact .left (.right (((Spells.token hdirective).mul hfirst).mul hothers))
  | override hdirective _ ih => exact .right ((Spells.left (.token hdirective)).mul ih)
  | extend hdirective _ ih => exact .right ((Spells.right (.token hdirective)).mul ih)
  | noLine => exact Spells.kstar_nil.mul .none
  | blankLine hnewline _ ih =>
      obtain ⟨m, hlines, hlast⟩ := spells_mul.1 ih
      refine Spells.mul (.kstar_cons (.left (.token ?_)) hlines) hlast
      simp [hnewline]
  | line _ hnewline _ ih ihlines =>
      obtain ⟨m, hlines, hlast⟩ := spells_mul.1 ihlines
      refine Spells.mul (.kstar_cons (.right (ih.mul (.token ?_))) hlines) hlast
      simp [hnewline]
  | lastLine _ ih => exact Spells.kstar_nil.mul (.some ih)

/-- What a phrase takes, it takes from the front of the stream. -/
theorem Derives.suffix {phrase : Phrase} {n : ℕ} {s r : TokenStream} {slots : List Child}
    (h : phrase.Derives n s r slots) : r.toList <:+ s.toList := by
  obtain ⟨taken, rfl, -⟩ := h.spells
  exact ⟨taken, (TokenStream.toList_prepend _ _).symm⟩

/-- A phrase that takes tokens takes them from the front of the stream. -/
theorem Derives.exists_taken {phrase : Phrase} {n : ℕ} {s r : TokenStream} {slots : List Child}
    (h : phrase.Derives n s r slots) (hleast : 0 < phrase.least) :
    ∃ taken, taken ≠ [] ∧ s.toList = taken ++ r.toList := by
  obtain ⟨taken, htaken⟩ := h.suffix
  refine ⟨taken, ?_, htaken.symm⟩
  rintro rfl
  have hlength := h.length_add_least_le
  rw [← htaken, List.nil_append] at hlength
  omega

/-! ### Words have derivations -/

variable {n : ℕ} {s r : TokenStream}

theorem exists_derives_of_literal (h : Spells MetaGrammar.literal s r) :
    ∃ child, Derives .value n s r [child] := by
  simp only [MetaGrammar.literal, spells_add, spells_mul, spells_token, spells_sign] at h
  rcases h with (((⟨t, ht, rfl⟩ | ⟨_, ⟨_, ⟨low, hlow, rfl⟩, dots, hdots, rfl⟩, high, hhigh, rfl⟩) |
    ⟨t, ht, rfl⟩) | ⟨t, ht, rfl⟩) | ⟨t, ht, rfl⟩
  · exact ⟨_, .token (by simp [TokenKind.isValue, ht])⟩
  · exact ⟨_, .range hlow hdots hhigh⟩
  · exact ⟨_, .token (by simp [TokenKind.isValue, ht])⟩
  · exact ⟨_, .token (by simp [TokenKind.isValue, TokenKind.isName, ht])⟩
  · exact ⟨_, .token (by simp [TokenKind.isValue, TokenKind.isName, ht])⟩

/-- Arguments have derivations if values of their depth have. -/
theorem exists_derives_arguments
    (hvalue : ∀ s r, Spells (MetaGrammar.value n) s r → ∃ child, Derives .value n s r [child])
    (h : Spells (listOf .comma (MetaGrammar.value n)) s r) :
    ∃ children, Derives .arguments n s r children := by
  refine h.listOf_induction (motive := fun s => ∃ children, Derives .arguments n s r children)
    ?_ ?_
  · intro s hlast
    obtain ⟨child, hchild⟩ := hvalue s r hlast
    exact ⟨_, .lastArgument hchild⟩
  · rintro s t m ht hfirst ⟨children, hchildren⟩
    obtain ⟨child, hchild⟩ := hvalue s _ hfirst
    exact ⟨_, .argument hchild ht hchildren⟩

theorem exists_derives_value (h : Spells (MetaGrammar.value n) s r) :
    ∃ child, Derives .value n s r [child] := by
  induction n generalizing s r with
  | zero => exact exists_derives_of_literal h
  | succ n ih =>
      rw [MetaGrammar.value, spells_add] at h
      rcases h with h | h
      · exact exists_derives_of_literal h
      · simp only [spells_mul, spells_token, spells_sign] at h
        obtain ⟨_, ⟨_, ⟨_, ⟨name, hname, rfl⟩, opening, hopening, rfl⟩, harguments⟩,
          closing, hclosing, rfl⟩ := h
        obtain ⟨arguments, harguments⟩ := exists_derives_arguments (fun _ _ => ih) harguments
        exact ⟨_, .usage hname hopening harguments hclosing⟩

/-- Items have derivations if atoms of their depth have. -/
theorem exists_derives_item
    (hatom : ∀ s r, Spells (MetaGrammar.atom n) s r → ∃ child, Derives .atom n s r [child])
    (h : Spells (MetaGrammar.item (MetaGrammar.atom n)) s r) :
    ∃ child, Derives .item n s r [child] := by
  obtain ⟨m, hoperand, h⟩ := spells_mul.1 h
  obtain ⟨operand, hoperand⟩ := hatom s m hoperand
  simp only [spells_optional, MetaGrammar.operator, spells_add, spells_mul, spells_token,
    spells_sign] at h
  rcases h with rfl | ((⟨t, ht, rfl⟩ | ⟨t, ht, rfl⟩) | ⟨t, ht, rfl⟩) |
    ⟨_, ⟨_, ⟨tilde, htilde, rfl⟩, count, hcount, rfl⟩, h⟩
  · exact ⟨_, .plain hoperand⟩
  · exact ⟨_, .operated hoperand (by simp [TokenKind.isOperator, ht])⟩
  · exact ⟨_, .operated hoperand (by simp [TokenKind.isOperator, ht])⟩
  · exact ⟨_, .operated hoperand (by simp [TokenKind.isOperator, ht])⟩
  · rcases h with rfl | ⟨_, ⟨dots, hdots, rfl⟩, upper, hupper, rfl⟩
    · exact ⟨_, .counted hoperand htilde hcount⟩
    · exact ⟨_, .countedUpTo hoperand htilde hcount hdots hupper⟩

/-- One alternative has a derivation if atoms of its depth have. -/
theorem exists_derives_alternative {aliases : Bool}
    (hatom : ∀ s r, Spells (MetaGrammar.atom n) s r → ∃ child, Derives .atom n s r [child])
    (h : Spells (MetaGrammar.alternative aliases (MetaGrammar.atom n)) s r) :
    ∃ tree, Derives (.alternative aliases) n s r [.tree tree] := by
  obtain ⟨m, hitems, h⟩ := spells_mul.1 h
  have hitems : ∃ items, Derives .items n s m items := by
    refine hitems.kstar_induction (motive := fun s => ∃ items, Derives .items n s m items) ?_ ?_
    · exact ⟨[], .noItem⟩
    · rintro s between hitem ⟨items, hitems⟩
      obtain ⟨item, hitem⟩ := exists_derives_item hatom hitem
      exact ⟨_, .items hitem hitems⟩
  obtain ⟨items, hitems⟩ := hitems
  cases aliases with
  | false =>
      obtain rfl := spells_one.1 h
      exact ⟨_, .unnamed hitems⟩
  | true =>
      simp only [if_true, spells_optional, spells_mul, spells_sign, spells_token] at h
      rcases h with rfl | ⟨_, ⟨arrow, harrow, rfl⟩, target, htarget, rfl⟩
      · exact ⟨_, .unnamed hitems⟩
      · exact ⟨_, .named hitems harrow htarget⟩

/-- Alternatives have derivations if atoms of their depth have. -/
theorem exists_derives_alternatives {aliases : Bool}
    (hatom : ∀ s r, Spells (MetaGrammar.atom n) s r → ∃ child, Derives .atom n s r [child])
    (h : Spells (MetaGrammar.expansions n aliases) s r) :
    ∃ tree, Derives (.expansions aliases) n s r [.tree tree] := by
  rw [MetaGrammar.expansions_eq] at h
  have htrees : ∃ trees : List Tree, Derives (.alternatives aliases) n s r (trees.map .tree) := by
    refine h.listOf_induction (motive := fun s =>
      ∃ trees : List Tree, Derives (.alternatives aliases) n s r (trees.map .tree)) ?_ ?_
    · intro s hlast
      obtain ⟨tree, htree⟩ := exists_derives_alternative hatom hlast
      exact ⟨[tree], .lastAlternative htree⟩
    · rintro s t m ht hfirst ⟨trees, htrees⟩
      obtain ⟨tree, htree⟩ := exists_derives_alternative hatom hfirst
      exact ⟨tree :: trees, .alternative htree ht htrees⟩
  obtain ⟨trees, htrees⟩ := htrees
  exact ⟨_, .expansions htrees⟩

theorem exists_derives_atom (h : Spells (MetaGrammar.atom n) s r) :
    ∃ child, Derives .atom n s r [child] := by
  induction n generalizing s r with
  | zero =>
      obtain ⟨child, hchild⟩ := exists_derives_value (n := 0) h
      exact ⟨child, .single hchild⟩
  | succ n ih =>
      rw [MetaGrammar.atom, spells_add] at h
      rcases h with h | h
      · obtain ⟨child, hchild⟩ := exists_derives_value h
        exact ⟨child, .single hchild⟩
      · simp only [MetaGrammar.groupOf, spells_add, spells_mul, spells_sign] at h
        rcases h with ⟨_, ⟨_, ⟨opening, hopening, rfl⟩, hbody⟩, closing, hclosing, rfl⟩ |
          ⟨_, ⟨_, ⟨opening, hopening, rfl⟩, hbody⟩, closing, hclosing, rfl⟩
        · obtain ⟨body, hbody⟩ := exists_derives_alternatives (fun _ _ => ih) hbody
          exact ⟨_, .parens hopening hbody hclosing⟩
        · obtain ⟨body, hbody⟩ := exists_derives_alternatives (fun _ _ => ih) hbody
          exact ⟨_, .brackets hopening hbody hclosing⟩

theorem exists_derives_expansions {aliases : Bool}
    (h : Spells (MetaGrammar.expansions n aliases) s r) :
    ∃ tree, Derives (.expansions aliases) n s r [.tree tree] :=
  exists_derives_alternatives (fun _ _ => exists_derives_atom) h

theorem exists_derives_names {separator : Punctuation} {suits : TokenKind → Bool}
    (h : Spells (listOf separator (MetaGrammar.token suits)) s r) :
    ∃ names : List Token, Derives (.names separator suits) n s r (names.map .token) := by
  refine h.listOf_induction (motive := fun s =>
    ∃ names : List Token, Derives (.names separator suits) n s r (names.map .token)) ?_ ?_
  · intro s hlast
    obtain ⟨t, ht, rfl⟩ := spells_token.1 hlast
    exact ⟨[t], .lastName ht⟩
  · rintro s sign m hsign hfirst ⟨names, hnames⟩
    obtain ⟨t, ht, heq⟩ := spells_token.1 hfirst
    rw [heq]
    exact ⟨t :: names, .name ht hsign hnames⟩

theorem exists_derives_params (h : Spells MetaGrammar.params s r) :
    ∃ child, Derives .params n s r [child] := by
  simp only [MetaGrammar.params, spells_optional, spells_mul, spells_sign] at h
  rcases h with rfl | ⟨_, ⟨_, ⟨opening, hopening, rfl⟩, hnames⟩, closing, hclosing, rfl⟩
  · exact ⟨_, .noParams⟩
  · obtain ⟨names, hnames⟩ := exists_derives_names hnames
    exact ⟨_, .params hopening hnames hclosing⟩

theorem exists_derives_priority (h : Spells MetaGrammar.priority s r) :
    ∃ child, Derives .priority n s r [child] := by
  simp only [MetaGrammar.priority, spells_optional, spells_mul, spells_sign, spells_token] at h
  rcases h with rfl | ⟨_, ⟨dot, hdot, rfl⟩, number, hnumber, rfl⟩
  · exact ⟨_, .noPriority⟩
  · exact ⟨_, .priority hdot hnumber⟩

theorem exists_derives_definition (h : Spells (MetaGrammar.definition n) s r) :
    ∃ tree, Derives .definition n s r [.tree tree] := by
  simp only [MetaGrammar.definition, MetaGrammar.rule, MetaGrammar.term, spells_add, spells_mul,
    spells_token, spells_sign] at h
  rcases h with
    ⟨_, ⟨_, ⟨_, ⟨_, ⟨name, hname, rfl⟩, hparams⟩, hpriority⟩, colon, hcolon, rfl⟩, hbody⟩ |
    ⟨_, ⟨_, ⟨_, ⟨name, hname, rfl⟩, hpriority⟩, colon, hcolon, rfl⟩, hbody⟩
  · obtain ⟨params, hparams⟩ := exists_derives_params hparams
    obtain ⟨priority, hpriority⟩ := exists_derives_priority hpriority
    obtain ⟨body, hbody⟩ := exists_derives_expansions hbody
    exact ⟨_, .rule hname hparams hpriority hcolon hbody⟩
  · obtain ⟨priority, hpriority⟩ := exists_derives_priority hpriority
    obtain ⟨body, hbody⟩ := exists_derives_expansions hbody
    exact ⟨_, .term hname hpriority hcolon hbody⟩

theorem exists_derives_path (h : Spells MetaGrammar.path s r) :
    ∃ tree, Derives .path n s r [.tree tree] := by
  simp only [MetaGrammar.path, spells_mul, spells_optional, spells_sign] at h
  obtain ⟨m, hdot, hnames⟩ := h
  obtain ⟨names, hnames⟩ := exists_derives_names (n := n) hnames
  rcases hdot with rfl | ⟨dot, hdot, rfl⟩
  · exact ⟨_, .path hnames⟩
  · exact ⟨_, .relativePath hdot hnames⟩

theorem exists_derives_declared
    (h : Spells (MetaGrammar.token TokenKind.isName * (MetaGrammar.token TokenKind.isName)∗) s r) :
    ∃ (first : Token) (others : List Token),
      Derives .declared n s r ((first :: others).map .token) := by
  obtain ⟨m, hfirst, hothers⟩ := spells_mul.1 h
  -- by induction on the names behind the first, which may be any
  have hdeclared : ∀ first : Token, first.kind.isName = true →
      ∃ others : List Token,
        Derives .declared n (m.cons first) r ((first :: others).map .token) := by
    refine hothers.kstar_induction (motive := fun m => ∀ first : Token, first.kind.isName = true →
      ∃ others : List Token,
        Derives .declared n (m.cons first) r ((first :: others).map .token)) ?_ ?_
    · intro first hname
      exact ⟨[], .lastDeclared hname⟩
    · intro m between hsecond ih first hname
      obtain ⟨second, hkind, rfl⟩ := spells_token.1 hsecond
      obtain ⟨others, hothers⟩ := ih second hkind
      exact ⟨second :: others, .declared hname hothers⟩
  obtain ⟨first, hname, rfl⟩ := spells_token.1 hfirst
  obtain ⟨others, hothers⟩ := hdeclared first hname
  exact ⟨first, others, hothers⟩

theorem exists_derives_imported {directive : Token}
    (hdirective : directive.kind.isDirective .importing = true)
    (h : Spells MetaGrammar.imported s r) :
    ∃ tree, Derives .statement n (s.cons directive) r [.tree tree] := by
  simp only [MetaGrammar.imported, spells_add, spells_mul, spells_optional, spells_sign,
    spells_token] at h
  rcases h with ⟨m, hpath, h⟩ |
    ⟨_, ⟨_, ⟨_, hpath, opening, hopening, rfl⟩, hnames⟩, closing, hclosing, rfl⟩
  · obtain ⟨path, hpath⟩ := exists_derives_path (n := n) hpath
    rcases h with rfl | ⟨_, ⟨arrow, harrow, rfl⟩, target, htarget, rfl⟩
    · exact ⟨_, .importPath hdirective hpath⟩
    · exact ⟨_, .importAs hdirective hpath harrow htarget⟩
  · obtain ⟨path, hpath⟩ := exists_derives_path (n := n) hpath
    obtain ⟨names, hnames⟩ := exists_derives_names hnames
    exact ⟨_, .importNames hdirective hpath hopening hnames hclosing⟩

theorem exists_derives_statement (h : Spells (MetaGrammar.statement n) s r) :
    ∃ tree, Derives .statement n s r [.tree tree] := by
  simp only [MetaGrammar.statement, MetaGrammar.directive, spells_add, spells_mul,
    spells_token] at h
  rcases h with
    (((h | ⟨_, ⟨directive, hdirective, rfl⟩, h⟩) | ⟨_, ⟨directive, hdirective, rfl⟩, h⟩) |
    ⟨m, ⟨_, ⟨directive, hdirective, rfl⟩, hfirst⟩, hothers⟩) |
    ⟨_, ⟨directive, hdirective, rfl⟩ | ⟨directive, hdirective, rfl⟩, h⟩
  · obtain ⟨tree, htree⟩ := exists_derives_definition h
    exact ⟨tree, .defines htree⟩
  · obtain ⟨body, hbody⟩ := exists_derives_expansions h
    exact ⟨_, .ignore hdirective hbody⟩
  · exact exists_derives_imported hdirective h
  · have hnames := Spells.mul (spells_token.2 hfirst) hothers
    obtain ⟨first, others, hnames⟩ := exists_derives_declared hnames
    exact ⟨_, .declare hdirective hnames⟩
  · obtain ⟨body, hbody⟩ := exists_derives_definition h
    exact ⟨_, .override hdirective hbody⟩
  · obtain ⟨body, hbody⟩ := exists_derives_definition h
    exact ⟨_, .extend hdirective hbody⟩

/-- **A word has a derivation**: lines of statements have a derivation of their trees. -/
theorem exists_derives_lines (h : Spells (MetaGrammar.lines n) s r) :
    ∃ trees : List Tree, Derives .lines n s r (trees.map .tree) := by
  obtain ⟨m, hlines, hlast⟩ := spells_mul.1 h
  refine hlines.kstar_induction (motive := fun s =>
    ∃ trees : List Tree, Derives .lines n s r (trees.map .tree)) ?_ ?_
  · rcases spells_optional.1 hlast with rfl | hlast
    · exact ⟨[], .noLine⟩
    · obtain ⟨tree, htree⟩ := exists_derives_statement hlast
      exact ⟨[tree], .lastLine htree⟩
  · rintro s between hline ⟨trees, htrees⟩
    simp only [MetaGrammar.newline, spells_add, spells_mul, spells_token, beq_iff_eq] at hline
    rcases hline with ⟨newline, hnewline, rfl⟩ | ⟨_, hstatement, newline, hnewline, rfl⟩
    · exact ⟨trees, .blankLine hnewline htrees⟩
    · obtain ⟨tree, htree⟩ := exists_derives_statement hstatement
      exact ⟨tree :: trees, .line htree hnewline htrees⟩

end Phrase

end GrammarCatalog

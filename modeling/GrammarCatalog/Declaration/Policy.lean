/-
**Policies.**

A policy says which names to list.  Each of its four switches rules on one class of names: those
marked inner, those marked conditional, aliases, and pinned names.  A name is listed when every
switch that rules on it is on.

Main definitions:

* `GrammarCatalog.Policy`, `GrammarCatalog.Policy.everything` — policies, and the one that lists all
  names;
* `GrammarCatalog.Policy.admits` — the ruling on the markers of a name;
* `GrammarCatalog.FilterFlags.policy` — the policy that a command's flags ask for.
-/

import GrammarCatalog.Declaration.Markers

set_option relaxedAutoImplicit false
set_option autoImplicit false

namespace GrammarCatalog

/-- Which names to list.  Without further ado, aliases and pinned names are listed, and names that
do not always keep their place are not. -/
structure Policy where
  /-- List names marked inner. -/
  showInner : Bool := false
  /-- List names marked conditional. -/
  showConditional : Bool := false
  /-- List aliases. -/
  showAlias : Bool := true
  /-- List pinned names. -/
  showPinned : Bool := true
  deriving DecidableEq, Repr, Inhabited

namespace Policy

/-- The policy that lists all names. -/
def everything : Policy := ⟨true, true, true, true⟩

/-- The policy with another ruling on names marked inner. -/
def withInner (policy : Policy) (shown : Bool) : Policy := { policy with showInner := shown }

/-- The policy with another ruling on names marked conditional. -/
def withConditional (policy : Policy) (shown : Bool) : Policy :=
  { policy with showConditional := shown }

/-- The policy with another ruling on aliases. -/
def withAlias (policy : Policy) (shown : Bool) : Policy := { policy with showAlias := shown }

/-- The policy with another ruling on pinned names. -/
def withPinned (policy : Policy) (shown : Bool) : Policy := { policy with showPinned := shown }

/-- No switch that rules on the markers of the name is off.  The switch for aliases rules before
names are taken apart, not here. -/
def admits (policy : Policy) (name : ClassifiedName) : Bool :=
  (!name.isPinned || policy.showPinned) && (!name.isInner || policy.showInner) &&
    (!name.isConditional || policy.showConditional)

theorem admits_everything (name : ClassifiedName) : everything.admits name = true := by
  simp [admits, everything]

end Policy

/-- The flags by which a command chooses names. -/
structure FilterFlags where
  /-- List names marked inner too. -/
  showInner : Bool := false
  /-- List names marked conditional too. -/
  showConditional : Bool := false
  /-- Leave out aliases. -/
  hideAlias : Bool := false
  /-- Leave out pinned names. -/
  hidePinned : Bool := false
  /-- List all names. -/
  all : Bool := false
  deriving DecidableEq, Repr, Inhabited

/-- The policy that the flags ask for; to list all names wins over the other flags. -/
def FilterFlags.policy (flags : FilterFlags) : Policy :=
  if flags.all then .everything
  else ⟨flags.showInner, flags.showConditional, !flags.hideAlias, !flags.hidePinned⟩

/-- Each kind of names has a flag of its own, and the flag for all names is as good. -/
theorem FilterFlags.policy_eq (flags : FilterFlags) :
    flags.policy = ⟨flags.all || flags.showInner, flags.all || flags.showConditional,
      flags.all || !flags.hideAlias, flags.all || !flags.hidePinned⟩ := by
  obtain ⟨showInner, showConditional, hideAlias, hidePinned, all⟩ := flags
  cases all <;> rfl

end GrammarCatalog

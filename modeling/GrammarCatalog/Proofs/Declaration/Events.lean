/-
**Collecting as a stream of events.**

A collector may be fed declarations, single nodes and whole trees, in any order, and a misshapen
node does not end its use.  Whatever is done with it comes down to one list of events: the
declarations that were recorded, and those that the visited nodes make.  What is collected is read
off that list: each spelling stands under the kind of its first event, at the place of that event.

Main definitions:

* `GrammarCatalog.Tree.isShapely`, `GrammarCatalog.Tree.event?`, `GrammarCatalog.Tree.defect` —
  whether a node has the shape of its kind, the event that it makes, and what is wrong with it;
* `GrammarCatalog.Collector.Step` — what can be done with a collector;
* `GrammarCatalog.Declaration.firstSeen` — the spellings whose first event is of a kind;
* `GrammarCatalog.Collector.Gathers` — **the invariant**: what a collector holds after some events.

Main results:

* `GrammarCatalog.Tree.declaration?_eq` — what a node declares is its event, unless it is misshapen;
* `GrammarCatalog.Collector.Gathers.record`, `GrammarCatalog.Collector.Gathers.visitEach` — one
  event, and the events of some nodes;
* `GrammarCatalog.Collector.gathers_run` — **a run gathers its events**.
-/

import Mathlib.Data.List.Induction
import Mathlib.Data.List.Nodup
import GrammarCatalog.Declaration.Collector

set_option relaxedAutoImplicit false
set_option autoImplicit false

namespace GrammarCatalog

/-! ### Nodes and their events -/

namespace Tree

/-- Whether a node has the shape of its kind: a rule begins with its name, and an alternative has
two slots, of which the second is a rule name or empty. -/
def isShapely (node : Tree) : Bool :=
  match node.kind, node.children with
  | .rule, slot :: _ => slot.ruleName?.isSome
  | .rule, [] => false
  | .alternative, [_, .absent] => true
  | .alternative, [_, target] => target.ruleName?.isSome
  | .alternative, _ => false
  | _, _ => true

/-- The event of a node: a rule declares the name in its first slot, and an alternative the name in
its second slot. -/
def event? (node : Tree) : Option Declaration :=
  match node.kind with
  | .rule => (node.children[0]?.bind Child.ruleName?).map fun name => ⟨name, .rule⟩
  | .alternative => (node.children[1]?.bind Child.ruleName?).map fun name => ⟨name, .aliased⟩
  | _ => none

/-- What is wrong with a node that lacks the shape of its kind. -/
def defect (node : Tree) : Misshape :=
  if node.kind = .rule then .firstChildNoRuleName
  else if node.children.length = 2 then .targetNoRuleName
  else .childCount node.children.length

/-- What a node declares is its event, unless the node is misshapen. -/
theorem declaration?_eq (node : Tree) :
    node.declaration? =
      if node.isShapely then .ok node.event? else .error (node.misshapen node.defect) := by
  obtain ⟨kind, slots, span⟩ := node
  cases kind with
  | rule =>
      cases slots with
      | nil => rfl
      | cons slot slots =>
          cases hname : slot.ruleName? with
          | none => simp [declaration?, ruleDeclaration, isShapely, defect, hname]
          | some name => simp [declaration?, ruleDeclaration, isShapely, event?, hname]
  | alternative =>
      rcases slots with _ | ⟨first, _ | ⟨target, _ | ⟨third, others⟩⟩⟩
      · rfl
      · rfl
      · cases target with
        | absent => rfl
        | tree node => rfl
        | token leaf =>
            cases hname : (Child.token leaf).ruleName? with
            | none => simp [declaration?, aliasDeclaration?, isShapely, defect, hname]
            | some name => simp [declaration?, aliasDeclaration?, isShapely, event?, hname]
      · simp [declaration?, aliasDeclaration?, isShapely, defect]
  | _ => rfl

/-- The events of some nodes, up to the first that is misshapen. -/
def events (nodes : List Tree) : List Declaration :=
  (nodes.takeWhile isShapely).filterMap event?

/-- The fault of some nodes: the first that is misshapen is to blame. -/
def fault? (nodes : List Tree) : Option Fault :=
  (nodes.find? fun node => !node.isShapely).map fun node => node.misshapen node.defect

end Tree

namespace Declaration

/-- The spellings whose first event is of a kind, in the order of their first events. -/
def firstSeen (kind : Kind) (events : List Declaration) : List String :=
  (events.map spelling).eraseDups.filter fun name =>
    (events.find? fun event => event.spelling == name).any fun event => event.kind == kind

variable {kind : Kind} {events : List Declaration} {event : Declaration} {name : String}

theorem mem_firstSeen : name ∈ firstSeen kind events ↔
    ∃ event, events.find? (fun event => event.spelling == name) = some event ∧
      event.kind = kind := by
  simp only [firstSeen, List.mem_filter, List.mem_eraseDups, List.mem_map, Option.any_eq_true,
    beq_iff_eq]
  constructor
  · rintro ⟨-, event, hevent, hkind⟩
    exact ⟨event, hevent, hkind⟩
  · rintro ⟨event, hevent, hkind⟩
    have hspelling : event.spelling = name := by simpa using List.find?_some hevent
    exact ⟨⟨event, List.mem_of_find?_eq_some hevent, hspelling⟩, event, hevent, hkind⟩

/-- A name that has an event has a first one, of one kind or the other. -/
theorem mem_firstSeen_or : name ∈ firstSeen .rule events ∨ name ∈ firstSeen .aliased events ↔
    name ∈ events.map spelling := by
  simp only [mem_firstSeen, List.mem_map]
  constructor
  · rintro (⟨event, hevent, -⟩ | ⟨event, hevent, -⟩)
    · exact ⟨event, List.mem_of_find?_eq_some hevent, by simpa using List.find?_some hevent⟩
    · exact ⟨event, List.mem_of_find?_eq_some hevent, by simpa using List.find?_some hevent⟩
  · rintro ⟨event, hevent, hspelling⟩
    have hsome : (events.find? fun event => event.spelling == name).isSome = true :=
      List.find?_isSome.2 ⟨event, hevent, by simpa using hspelling⟩
    obtain ⟨first, hfirst⟩ := Option.isSome_iff_exists.1 hsome
    cases hkind : first.kind with
    | rule => exact Or.inl ⟨first, hfirst, hkind⟩
    | aliased => exact Or.inr ⟨first, hfirst, hkind⟩

/-- An event of a name that has had one before changes nothing. -/
theorem firstSeen_append_of_mem (h : event.spelling ∈ events.map spelling) :
    firstSeen kind (events ++ [event]) = firstSeen kind events := by
  have hnames : ((events ++ [event]).map spelling).eraseDups = (events.map spelling).eraseDups := by
    rw [List.map_append, List.eraseDups_append, List.map_singleton, List.removeAll,
      List.filter_cons_of_neg (by simpa using h), List.filter_nil, List.eraseDups_nil,
      List.append_nil]
  unfold firstSeen
  rw [hnames]
  refine List.filter_congr fun name hname => ?_
  -- the first event of a name that has one is not changed by what comes later
  obtain ⟨other, hother, hspelling⟩ := List.mem_map.1 (List.mem_eraseDups.1 hname)
  have hsome : (events.find? fun event => event.spelling == name).isSome = true :=
    List.find?_isSome.2 ⟨other, hother, by simpa using hspelling⟩
  obtain ⟨first, hfirst⟩ := Option.isSome_iff_exists.1 hsome
  rw [List.find?_append, hfirst, Option.some_or]

/-- The first event of a name puts it behind those of its kind. -/
theorem firstSeen_append_of_notMem (h : event.spelling ∉ events.map spelling) :
    firstSeen kind (events ++ [event]) =
      firstSeen kind events ++ if event.kind = kind then [event.spelling] else [] := by
  have hnames : ((events ++ [event]).map spelling).eraseDups =
      (events.map spelling).eraseDups ++ [event.spelling] := by
    rw [List.map_append, List.eraseDups_append, List.map_singleton, List.removeAll,
      List.filter_cons_of_pos (by simpa using h), List.filter_nil]
    rfl
  unfold firstSeen
  rw [hnames, List.filter_append]
  congr 1
  · refine List.filter_congr fun name hname => ?_
    have hne : event.spelling ≠ name := by
      rintro rfl
      exact h (List.mem_eraseDups.1 hname)
    simp [List.find?_append, hne]
  · have hnone : (events.find? fun other => other.spelling == event.spelling) = none := by
      simpa using h
    by_cases hkind : event.kind = kind
    · simp [List.find?_append, hnone, hkind]
    · simp [List.find?_append, hnone, hkind]

/-- No name is listed twice, neither under one kind nor under both. -/
theorem nodup_firstSeen (events : List Declaration) :
    (firstSeen .rule events ++ firstSeen .aliased events).Nodup := by
  induction events using List.reverseRecOn with
  | nil => simp [firstSeen]
  | append_singleton events event ih =>
      by_cases h : event.spelling ∈ events.map spelling
      · rwa [firstSeen_append_of_mem h, firstSeen_append_of_mem h]
      · have hnot : event.spelling ∉ firstSeen .rule events ++ firstSeen .aliased events := by
          rw [List.mem_append, mem_firstSeen_or]
          exact h
        rw [firstSeen_append_of_notMem h, firstSeen_append_of_notMem h]
        cases hkind : event.kind with
        | rule =>
            simp only [reduceCtorEq, if_true, if_false, List.append_nil]
            rw [List.append_assoc, List.singleton_append, List.nodup_middle]
            exact List.nodup_cons.2 ⟨hnot, ih⟩
        | aliased =>
            simp only [reduceCtorEq, if_true, if_false, List.append_nil]
            rw [← List.append_assoc, ← List.concat_eq_append, List.nodup_concat]
            exact ⟨hnot, ih⟩

end Declaration

namespace Collector

open Declaration (firstSeen firstSeen_append_of_mem firstSeen_append_of_notMem)

/-! ### What a collector holds -/

/-- **The invariant**: what a collector holds after some events. -/
structure Gathers (collector : Collector) (events : List Declaration) : Prop where
  /-- The spellings that came up are those of the events. -/
  mem_seen (name : String) : name ∈ collector.seen ↔ name ∈ events.map Declaration.spelling
  /-- The rules are the spellings that came up first as rules. -/
  ruleNames : collector.collected.ruleNames = firstSeen .rule events
  /-- The aliases are the spellings that came up first as aliases. -/
  aliasNames : collector.collected.aliasNames = firstSeen .aliased events

theorem gathers_nil : Gathers {} [] := ⟨by simp, rfl, rfl⟩

variable {collector : Collector} {earlier : List Declaration}

/-- A recorded declaration is one more event. -/
theorem Gathers.record (h : collector.Gathers earlier) (declaration : Declaration) :
    (collector.record declaration).2.Gathers (earlier ++ [declaration]) := by
  by_cases hseen : declaration.spelling ∈ collector.seen
  · have hmem := (h.mem_seen _).1 hseen
    rw [record_of_mem hseen]
    refine ⟨?_, ?_, ?_⟩
    · intro name
      rw [h.mem_seen, List.map_append, List.mem_append, List.map_singleton, List.mem_singleton,
        or_iff_left_of_imp]
      rintro rfl
      exact hmem
    · rw [firstSeen_append_of_mem hmem, h.ruleNames]
    · rw [firstSeen_append_of_mem hmem, h.aliasNames]
  · have hnot := (h.mem_seen _).not.1 hseen
    rw [record_of_notMem hseen]
    obtain ⟨spelling, kind⟩ := declaration
    refine ⟨?_, ?_, ?_⟩
    · intro name
      rw [List.mem_cons, h.mem_seen, List.map_append, List.mem_append, List.map_singleton,
        List.mem_singleton, or_comm]
    · rw [firstSeen_append_of_notMem hnot, ← h.ruleNames]
      cases kind <;> simp [Collected.push]
    · rw [firstSeen_append_of_notMem hnot, ← h.aliasNames]
      cases kind <;> simp [Collected.push]

/-- A declaration is kept exactly when its spelling has had no event. -/
theorem Gathers.kept_iff (h : collector.Gathers earlier) (declaration : Declaration) :
    (collector.record declaration).1 = true ↔
      declaration.spelling ∉ earlier.map Declaration.spelling := by
  rw [← h.mem_seen]
  by_cases hseen : declaration.spelling ∈ collector.seen
  · simp [record_of_mem hseen, hseen]
  · simp [record_of_notMem hseen, hseen]

theorem visit_eq (collector : Collector) (node : Tree) :
    collector.visit node =
      if node.isShapely then
        .ok (node.event?.elim collector fun event => (collector.record event).2)
      else .error (node.misshapen node.defect) := by
  rw [visit, Tree.declaration?_eq]
  by_cases hshape : node.isShapely = true
  · cases node.event? <;> simp [hshape]
  · simp [hshape]

/-- Nodes are visited up to the first that is misshapen, and their events are gathered. -/
theorem Gathers.visitEach (h : collector.Gathers earlier) (nodes : List Tree) :
    (collector.visitEach nodes).1.Gathers (earlier ++ Tree.events nodes) ∧
      (collector.visitEach nodes).2 = Tree.fault? nodes := by
  induction nodes generalizing collector earlier with
  | nil => exact ⟨by simpa [Collector.visitEach, Tree.events] using h, rfl⟩
  | cons node nodes ih =>
      rw [Collector.visitEach, visit_eq]
      by_cases hshape : node.isShapely = true
      · have hfault : Tree.fault? (node :: nodes) = Tree.fault? nodes := by
          simp [Tree.fault?, hshape]
        rw [if_pos hshape, hfault]
        cases hevent : node.event? with
        | none =>
            have hevents : Tree.events (node :: nodes) = Tree.events nodes := by
              simp [Tree.events, hshape, hevent]
            rw [hevents]
            exact ih h
        | some event =>
            have hevents : Tree.events (node :: nodes) = event :: Tree.events nodes := by
              simp [Tree.events, hshape, hevent]
            rw [hevents, ← List.singleton_append, ← List.append_assoc]
            exact ih (h.record event)
      · rw [if_neg hshape]
        exact ⟨by simpa [Tree.events, hshape] using h, by simp [Tree.fault?, hshape]⟩

/-! ### Steps and runs -/

/-- What can be done with a collector. -/
inductive Step where
  /-- A declaration is recorded. -/
  | record (declaration : Declaration)
  /-- A node is visited, and nothing below it. -/
  | visit (node : Tree)
  /-- A node is visited with all nodes below it. -/
  | visitAll (tree : Tree)

/-- The collector after a step, and the fault if the step had one.  After a fault the collector can
still be used. -/
def perform (collector : Collector) : Step → Collector × Option Fault
  | .record declaration => ((collector.record declaration).2, none)
  | .visit node =>
      match collector.visit node with
      | .ok after => (after, none)
      | .error fault => (collector, some fault)
  | .visitAll tree => collector.visitAll tree

/-- The collector after some steps, the first of which is done with an empty one. -/
def run (steps : List Step) : Collector :=
  steps.foldl (fun collector step => (collector.perform step).1) {}

namespace Step

/-- The nodes that a step visits, parents before children. -/
def nodes : Step → List Tree
  | record _ => []
  | visit node => [node]
  | visitAll tree => tree.preorder

/-- The events of a step: the declaration that is recorded, or those of the visited nodes. -/
def events : Step → List Declaration
  | record declaration => [declaration]
  | step => Tree.events step.nodes

end Step

/-- A step gathers its events, and has the fault of the nodes that it visits. -/
theorem Gathers.perform (h : collector.Gathers earlier) (step : Step) :
    (collector.perform step).1.Gathers (earlier ++ step.events) ∧
      (collector.perform step).2 = Tree.fault? step.nodes := by
  cases step with
  | record declaration => exact ⟨h.record declaration, rfl⟩
  | visit node =>
      -- a single node is visited as a list of one
      have hvisit := h.visitEach [node]
      have heq : collector.perform (.visit node) = collector.visitEach [node] := by
        cases hnode : collector.visit node <;> simp [Collector.perform, Collector.visitEach, hnode]
      rw [heq]
      exact hvisit
  | visitAll tree =>
      have hvisit := h.visitEach tree.preorder
      have heq : collector.perform (.visitAll tree) = collector.visitEach tree.preorder := by
        rw [Collector.perform, Collector.visitAll, Tree.topdown_eq_preorder]
      rw [heq]
      exact hvisit

/-- **A run gathers its events.** -/
theorem gathers_run (steps : List Step) : (run steps).Gathers (steps.flatMap Step.events) := by
  induction steps using List.reverseRecOn with
  | nil => exact gathers_nil
  | append_singleton steps step ih =>
      rw [run, List.foldl_append, List.flatMap_append, List.flatMap_singleton]
      exact (ih.perform step).1

/-- **What a run has collected**: the names whose first event is a rule, and those whose first event
is an alias, each in the order of those events; no name twice; and what came up is what is listed.
A further declaration is kept exactly when its spelling has had no event, and a further step has a
fault exactly when it visits a misshapen node: that of the first one, and then the events are those
of the nodes before it. -/
theorem collected_run (steps : List Step) :
    (run steps).collected.ruleNames = firstSeen .rule (steps.flatMap Step.events) ∧
    (run steps).collected.aliasNames = firstSeen .aliased (steps.flatMap Step.events) ∧
    ((run steps).collected.ruleNames ++ (run steps).collected.aliasNames).Nodup ∧
    (∀ name, name ∈ (run steps).seen ↔
      name ∈ (run steps).collected.ruleNames ∨ name ∈ (run steps).collected.aliasNames) ∧
    (∀ declaration, ((run steps).record declaration).1 = true ↔
      declaration.spelling ∉ (steps.flatMap Step.events).map Declaration.spelling) ∧
    ∀ step, ((run steps).perform step).2 = Tree.fault? step.nodes := by
  have h := gathers_run steps
  refine ⟨h.ruleNames, h.aliasNames, ?_, ?_, h.kept_iff, fun step => (h.perform step).2⟩
  · rw [h.ruleNames, h.aliasNames]
    exact Declaration.nodup_firstSeen _
  · intro name
    rw [h.mem_seen, h.ruleNames, h.aliasNames, Declaration.mem_firstSeen_or]

end Collector

end GrammarCatalog

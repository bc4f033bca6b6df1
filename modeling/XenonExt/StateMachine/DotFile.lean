import XenonExt.StateMachine.CallLog

/-! # The graph of a configuration as text

`generateDotFile()` prints one edge statement for each behaviour of each state, in the order of the
maps. The text is a header, these lines, and a closing brace.

* **`edgeLine_mem_edgeLines`**: the line of every behaviour listed for a trigger of a configured
  state is among the lines of the configuration. -/

namespace XenonExt

variable {G A : Type}

/-- The edge statement Java's formatter prints for a source, a destination and a trigger. -/
def edgeLine (src dest trigger : JString) : Str :=
  "\t".toList ++ text src ++ " -> ".toList ++ text dest ++ " [ label = \"".toList ++ text trigger ++
    "\" ];\n".toList

namespace StateMachineConfig

/-- The edge statements of a configuration: the states in map order, for each its triggers in map
order, for each its behaviours in list order. -/
def edgeLines (c : StateMachineConfig G A) : List Str :=
  c.stateConfiguration.entries.flatMap fun entry =>
    entry.2.triggerBehaviours.entries.flatMap fun behaviour =>
      behaviour.2.map fun triggerBehaviour =>
        edgeLine entry.1 (triggerBehaviour.resultsInTransitionFrom none).2 triggerBehaviour.trigger

/-- `generateDotFile()`. -/
def generateDotFile (c : StateMachineConfig G A) : Str :=
  "digraph G \x7b\n".toList ++ c.edgeLines.flatten ++ "\x7d".toList

/-- An edge statement stands in the text of the graph, between those before and those after it. -/
theorem generateDotFile_of_mem {c : StateMachineConfig G A} {line : Str} (h : line ∈ c.edgeLines) :
    ∃ before after : List Str, c.edgeLines = before ++ line :: after ∧
      c.generateDotFile = "digraph G \x7b\n".toList ++
        (before.flatten ++ (line ++ after.flatten)) ++ "\x7d".toList := by
  obtain ⟨before, after, hlines⟩ := List.append_of_mem h
  have hflatten : c.edgeLines.flatten = before.flatten ++ (line ++ after.flatten) := by
    rw [hlines, List.flatten_append, List.flatten_cons]
  exact ⟨before, after, hlines, congrArg (_ ++ · ++ _) hflatten⟩

/-- **A behaviour of a state has its line in the graph.** -/
theorem edgeLine_mem_edgeLines {c : StateMachineConfig G A} {state trigger : JString}
    {r : StateRepresentation G A} {b : TriggerBehaviour G}
    (hr : c.getRepresentation state = some r) (hb : b ∈ r.behavioursOf trigger) :
    edgeLine state b.destination trigger ∈ c.edgeLines := by
  have htrigger := StateRepresentation.trigger_of_mem_behavioursOf hb
  unfold StateRepresentation.behavioursOf at hb
  cases hl : r.triggerBehaviours.lookup trigger with
  | none => simp [hl] at hb
  | some bs =>
      rw [hl, Option.getD_some] at hb
      refine List.mem_flatMap.mpr ⟨⟨state, r⟩, AList.mem_lookup_iff.mp hr, ?_⟩
      refine List.mem_flatMap.mpr ⟨⟨trigger, bs⟩, AList.mem_lookup_iff.mp hl, ?_⟩
      refine List.mem_map.mpr ⟨b, hb, ?_⟩
      rw [htrigger]
      rfl

end StateMachineConfig

end XenonExt

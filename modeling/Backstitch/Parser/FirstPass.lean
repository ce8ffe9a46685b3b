/-
# What the first pass reads

Every section that `parse_scene` comes to adds one node, adds one connection, or leaves both
alone.  So the pass ends with one node for each node section and one connection for each
connection section, in their order.
-/

import Backstitch.Parser.ParseTree

namespace Backstitch

namespace SectionState

/-- The node of a section, whose id was not read before. -/
structure ReadsNode (input : Section) (entry : GodotNode × Option String) : Prop where
  id : entry.1.id = nodeIdOf input
  name : input.required "name" "node section" = .done entry.1.name
  typeOrInstance : typeOrInstanceOf input = .done entry.1.typeOrInstance
  parentPath : input.optional "parent" = .done entry.2

/-- The ends of the connection of a section. -/
structure ReadsEnds (input : Section) (entry : String × String × GodotConnection) : Prop where
  fromPath : input.required "from" "connection section" = .done entry.1
  toPath : input.required "to" "connection section" = .done entry.2.1

/-- What one section does to the nodes and connections that were read before it. -/
inductive Step (state : SectionState) (input : Section) (next : SectionState) : Prop
  | node (hnode : input.identifier = "node") (entry : GodotNode × Option String)
      (hnodes : next.nodeArr = state.nodeArr ++ [entry])
      (hids : next.parsedNodeIds = insert (nodeIdOf input) state.parsedNodeIds)
      (hconnections : next.connectionsArr = state.connectionsArr)
      (hheader : next.sceneMetadata = state.sceneMetadata)
      (hreads : nodeIdOf input ∉ state.parsedNodeIds → ReadsNode input entry)
  | connection (hconnection : input.identifier = "connection")
      (entry : String × String × GodotConnection) (hnodes : next.nodeArr = state.nodeArr)
      (hids : next.parsedNodeIds = state.parsedNodeIds)
      (hconnections : next.connectionsArr = state.connectionsArr ++ [entry])
      (hheader : next.sceneMetadata = state.sceneMetadata) (hreads : ReadsEnds input entry)
  | other (hnode : input.identifier ≠ "node") (hconnection : input.identifier ≠ "connection")
      (hnodes : next.nodeArr = state.nodeArr)
      (hids : next.parsedNodeIds = state.parsedNodeIds)
      (hconnections : next.connectionsArr = state.connectionsArr)
      (hheader : next.sceneMetadata = none → state.sceneMetadata = none ∧
        input.identifier ≠ "gd_scene" ∧ input.identifier ≠ "gd_resource")

variable {state next : SectionState} {input : Section}

theorem readNode_step (hid : input.identifier = "node")
    (hdone : state.readNode input = .done next) : Step state input next := by
  simp only [readNode, Run.bind_eq_done_iff, Run.pure_eq_done, Run.done.injEq] at hdone
  obtain ⟨name, hname, _, -, _, -, _, -, typeOrInstance, htype, _, -, parentPath, hparent, _, -,
    _, -, rfl⟩ := hdone
  refine .node hid _ rfl rfl rfl rfl fun hnew => ?_
  constructor
  · exact if_neg fun hduplicate => hnew hduplicate.1
  · exact hname
  · exact htype
  · exact hparent

theorem readConnection_step (hid : input.identifier = "connection")
    (hdone : state.readConnection input = .done next) : Step state input next := by
  simp only [readConnection, Run.bind_eq_done_iff, Run.pure_eq_done, Run.done.injEq] at hdone
  obtain ⟨_, -, fromPath, hfrom, toPath, hto, _, -, _, -, _, -, _, -, rfl⟩ := hdone
  exact .connection hid _ rfl rfl rfl rfl ⟨hfrom, hto⟩

/-- **What a section does.** -/
theorem readSection_step (hdone : state.readSection input = .done next) :
    Step state input next := by
  by_cases hnode : input.identifier = "node"
  · apply readNode_step hnode
    simpa [readSection, hnode] using hdone
  by_cases hconnection : input.identifier = "connection"
  · apply readConnection_step hconnection
    simpa [readSection, hconnection] using hdone
  unfold readSection at hdone
  split at hdone
  · simp only [readResourceHeader, Run.bind_eq_done_iff, Run.pure_eq_done, Run.done.injEq] at hdone
    obtain ⟨_, -, _, -, _, -, _, -, rfl⟩ := hdone
    exact .other hnode hconnection rfl rfl rfl fun hnone => by cases hnone
  next hresource =>
  split at hdone
  · cases hdone
    refine .other hnode hconnection rfl rfl rfl fun hnone => ⟨hnone, ?_, hresource⟩
    simp [*]
  split at hdone
  · simp only [readSceneHeader, Run.bind_eq_done_iff, Run.pure_eq_done, Run.done.injEq] at hdone
    obtain ⟨_, -, _, -, rfl⟩ := hdone
    exact .other hnode hconnection rfl rfl rfl fun hnone => by cases hnone
  next hscene =>
  split at hdone
  · simp only [readExtResource, Run.bind_eq_done_iff, Run.pure_eq_done, Run.done.injEq] at hdone
    obtain ⟨_, -, _, -, _, -, _, -, rfl⟩ := hdone
    exact .other hnode hconnection rfl rfl rfl fun hnone => ⟨hnone, hscene, hresource⟩
  split at hdone
  · simp only [readSubResource, Run.bind_eq_done_iff, Run.pure_eq_done, Run.done.injEq] at hdone
    obtain ⟨_, -, _, -, rfl⟩ := hdone
    exact .other hnode hconnection rfl rfl rfl fun hnone => ⟨hnone, hscene, hresource⟩
  split at hdone
  · simp only [readEditable, Run.bind_eq_done_iff, Run.pure_eq_done, Run.done.injEq] at hdone
    obtain ⟨_, -, rfl⟩ := hdone
    exact .other hnode hconnection rfl rfl rfl fun hnone => ⟨hnone, hscene, hresource⟩
  · cases hdone
    exact .other hnode hconnection rfl rfl rfl fun hnone => ⟨hnone, hscene, hresource⟩

/-! ## The whole pass -/

variable {sections : List Section} {read : SectionState}

/-- The node sections of a text. -/
def nodeSectionsOf (sections : List Section) : List Section :=
  sections.filter fun input => decide (input.identifier = "node")

/-- The connection sections of a text. -/
def connectionSectionsOf (sections : List Section) : List Section :=
  sections.filter fun input => decide (input.identifier = "connection")

/-- **Where no id comes twice, the pass reads one node for each node section.** -/
theorem readsNodes_of_foldlM (hdone : sections.foldlM readSection {} = .done read)
    (hnodup : ((nodeSectionsOf sections).map nodeIdOf).Nodup) :
    List.Forall₂ ReadsNode (nodeSectionsOf sections) read.nodeArr := by
  suffices hall : List.Forall₂ ReadsNode (nodeSectionsOf sections) read.nodeArr ∧
      ∀ id ∈ read.parsedNodeIds, id ∈ (nodeSectionsOf sections).map nodeIdOf from hall.1
  apply @Run.foldlM_prefix_induct _ _ _ (fun before state =>
    List.Forall₂ ReadsNode (nodeSectionsOf before) state.nodeArr ∧
      ∀ id ∈ state.parsedNodeIds, id ∈ (nodeSectionsOf before).map nodeIdOf) _ _ _ hdone
  · exact ⟨.nil, by simp⟩
  · intro before input after state next hsections hstate hnext
    obtain ⟨hnodes, hids⟩ := hstate
    have hsplit : nodeSectionsOf (before ++ [input]) =
        nodeSectionsOf before ++ nodeSectionsOf [input] := List.filter_append ..
    cases readSection_step hnext with
    | node hnode entry hentry hparsed _ _ hreads =>
        have hself : nodeSectionsOf [input] = [input] := by simp [nodeSectionsOf, hnode]
        rw [hsplit, hself, hentry, hparsed]
        have hnew : nodeIdOf input ∉ state.parsedNodeIds := by
          intro hold
          have hall : nodeSectionsOf sections =
              nodeSectionsOf before ++ input :: nodeSectionsOf after := by
            simp [hsections, nodeSectionsOf, hnode]
          rw [hall, List.map_append, List.map_cons] at hnodup
          exact (List.nodup_append.mp hnodup).2.2 _ (hids _ hold) _ List.mem_cons_self rfl
        constructor
        · exact List.rel_append hnodes (.cons (hreads hnew) .nil)
        · intro id hid
          rw [List.map_append, List.mem_append]
          rcases Finset.mem_insert.mp hid with rfl | hold
          · exact .inr List.mem_cons_self
          · exact .inl (hids id hold)
    | connection hconnection _ hentry hparsed _ _ _ =>
        have hself : nodeSectionsOf [input] = [] := by simp [nodeSectionsOf, hconnection]
        rw [hsplit, hself, List.append_nil, hentry, hparsed]
        exact ⟨hnodes, hids⟩
    | other hnode _ hentry hparsed _ _ =>
        have hself : nodeSectionsOf [input] = [] := by simp [nodeSectionsOf, hnode]
        rw [hsplit, hself, List.append_nil, hentry, hparsed]
        exact ⟨hnodes, hids⟩

/-- **The pass reads one connection for each connection section.** -/
theorem readsEnds_of_foldlM (hdone : sections.foldlM readSection {} = .done read) :
    List.Forall₂ ReadsEnds (connectionSectionsOf sections) read.connectionsArr := by
  apply @Run.foldlM_prefix_induct _ _ _ (fun before state =>
    List.Forall₂ ReadsEnds (connectionSectionsOf before) state.connectionsArr) _ _ _ hdone .nil
  intro before input after state next _ hstate hnext
  have hsplit : connectionSectionsOf (before ++ [input]) =
      connectionSectionsOf before ++ connectionSectionsOf [input] := List.filter_append ..
  cases readSection_step hnext with
  | node hnode _ _ _ hentry _ _ =>
      have hself : connectionSectionsOf [input] = [] := by simp [connectionSectionsOf, hnode]
      rwa [hsplit, hself, List.append_nil, hentry]
  | connection hconnection entry _ _ hentry _ hreads =>
      have hself : connectionSectionsOf [input] = [input] := by
        simp [connectionSectionsOf, hconnection]
      rw [hsplit, hself, hentry]
      exact List.rel_append hstate (.cons hreads .nil)
  | other _ hconnection _ _ hentry _ =>
      have hself : connectionSectionsOf [input] = [] := by
        simp [connectionSectionsOf, hconnection]
      rwa [hsplit, hself, List.append_nil, hentry]

/-- Behind a header, the pass knows the header. -/
theorem sceneMetadata_ne_none (hdone : sections.foldlM readSection {} = .done read)
    {header : Section} (hheader : header ∈ sections)
    (hid : header.identifier = "gd_scene" ∨ header.identifier = "gd_resource") :
    read.sceneMetadata ≠ none := by
  intro hnone
  suffices hall : read.sceneMetadata = none → ∀ input ∈ sections,
      input.identifier ≠ "gd_scene" ∧ input.identifier ≠ "gd_resource" by
    obtain ⟨hscene, hresource⟩ := hall hnone header hheader
    rcases hid with hid | hid
    · exact hscene hid
    · exact hresource hid
  apply @Run.foldlM_prefix_induct _ _ _ (fun before state =>
    state.sceneMetadata = none → ∀ input ∈ before,
      input.identifier ≠ "gd_scene" ∧ input.identifier ≠ "gd_resource") _ _ _ hdone
  · exact fun _ => by simp
  · intro before input after state next _ hstate hnext hnone
    rw [List.forall_mem_append, List.forall_mem_singleton]
    cases readSection_step hnext with
    | node hnode _ _ _ _ hsame _ => exact ⟨hstate (hsame ▸ hnone), by simp [hnode]⟩
    | connection hconnection _ _ _ _ hsame _ =>
        exact ⟨hstate (hsame ▸ hnone), by simp [hconnection]⟩
    | other _ _ _ _ _ hkeeps =>
        obtain ⟨hbefore, hinput⟩ := hkeeps hnone
        exact ⟨hstate hbefore, hinput⟩

end SectionState

end Backstitch

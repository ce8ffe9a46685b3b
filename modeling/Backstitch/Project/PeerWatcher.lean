/-
# The info about the server

`PeerWatcher` folds every connection info of the server into the info it stores, document by
document.  Of a document that the server had acknowledged heads of, an empty list of
acknowledged heads does not replace the old state; an absent list does.
-/

import Backstitch.Library.HashMap

namespace Backstitch

universe u v

/-- What the repo reports of one document. -/
structure PeerDocState (χ : Type v) where
  lastAckedHeads : Option (List χ)
  deriving DecidableEq

namespace PeerDocState

variable {χ : Type v}

/-- The server has acknowledged heads of the document. -/
def HasAcked (state : PeerDocState χ) : Prop :=
  ∃ heads, state.lastAckedHeads = some heads ∧ heads ≠ []

/-- `last_acked_heads.as_ref().is_some_and(|h| h.is_empty())`. -/
def beheaded (state : PeerDocState χ) : Bool :=
  state.lastAckedHeads.any (·.isEmpty)

/-- `last_acked_heads.as_ref().is_some_and(|h| !h.is_empty())`. -/
def acked (state : PeerDocState χ) : Bool :=
  state.lastAckedHeads.any (!·.isEmpty)

theorem acked_iff {state : PeerDocState χ} : state.acked = true ↔ state.HasAcked := by
  simp [acked, HasAcked, Option.any_eq_true]

/-- The three kinds of states. -/
theorem hasAcked_cases (state : PeerDocState χ) :
    state.lastAckedHeads = none ∨ state.beheaded = true ∨ state.HasAcked := by
  obtain ⟨_ | ⟨_ | ⟨head, heads⟩⟩⟩ := state
  · exact .inl rfl
  · exact .inr (.inl rfl)
  · exact .inr (.inr ⟨head :: heads, rfl, List.cons_ne_nil _ _⟩)

theorem not_hasAcked_of_none {state : PeerDocState χ} (hnone : state.lastAckedHeads = none) :
    ¬ state.HasAcked := by
  rintro ⟨heads, hheads, -⟩
  nomatch hnone.symm.trans hheads

theorem not_beheaded_of_none {state : PeerDocState χ} (hnone : state.lastAckedHeads = none) :
    ¬ state.beheaded = true := by
  rw [beheaded, hnone, Option.any_none]
  exact Bool.false_ne_true

end PeerDocState

/-- What the repo reports of a connection. -/
structure ConnectionInfo (κ : Type u) (χ : Type v) where
  lastReceived : Option ℕ
  lastSent : Option ℕ
  docs : HashMap κ (PeerDocState χ)

variable {κ : Type u} {χ : Type v} [DecidableEq κ]

/-- "If we got beheaded, skip this doc." -/
def skipsDoc (docs : HashMap κ (PeerDocState χ)) (entry : Entry κ (PeerDocState χ)) : Bool :=
  (docs.lookup entry.1).any fun oldDocState => entry.2.beheaded && oldDocState.acked

/-- One pass of the loop over the new documents. -/
def updateDoc (docs : HashMap κ (PeerDocState χ)) (entry : Entry κ (PeerDocState χ)) :
    HashMap κ (PeerDocState χ) :=
  if skipsDoc docs entry then docs else docs.insert entry.1 entry.2

/-- `update_server_info`; `order` is the order in which the new documents are visited. -/
def updateServerInfo (oldInfo newInfo : Option (ConnectionInfo κ χ))
    (order : List (Entry κ (PeerDocState χ))) : Option (ConnectionInfo κ χ) :=
  newInfo.bind fun newInfo =>
    match oldInfo with
    | none => some newInfo
    | some info => some {
        lastReceived := newInfo.lastReceived
        lastSent := newInfo.lastSent
        docs := order.foldl updateDoc info.docs }

/-! ## One update -/

theorem lookup_updateDoc_of_ne (docs : HashMap κ (PeerDocState χ))
    {entry : Entry κ (PeerDocState χ)} {doc : κ} (hne : doc ≠ entry.1) :
    (updateDoc docs entry).lookup doc = docs.lookup doc := by
  unfold updateDoc
  split
  · rfl
  · exact Finmap.lookup_insert_of_ne docs hne

theorem lookup_updateDoc_self (docs : HashMap κ (PeerDocState χ))
    (entry : Entry κ (PeerDocState χ)) :
    (updateDoc docs entry).lookup entry.1 =
      if skipsDoc docs entry then docs.lookup entry.1 else some entry.2 := by
  unfold updateDoc
  split
  · rfl
  · exact Finmap.lookup_insert docs

/-- A document that is not visited keeps its state. -/
theorem lookup_foldl_updateDoc_of_notMem {order : List (Entry κ (PeerDocState χ))} {doc : κ}
    (hdoc : doc ∉ order.map Sigma.fst) (docs : HashMap κ (PeerDocState χ)) :
    (order.foldl updateDoc docs).lookup doc = docs.lookup doc := by
  induction order generalizing docs with
  | nil => rfl
  | cons entry order ih =>
      obtain ⟨hne, hrest⟩ := not_or.mp (mt List.mem_cons.mpr hdoc)
      rw [List.foldl_cons, ih hrest, lookup_updateDoc_of_ne docs hne]

/-- A document that is visited once is compared with its old state. -/
theorem lookup_foldl_updateDoc {order : List (Entry κ (PeerDocState χ))}
    (hkeys : (order.map Sigma.fst).Nodup) {doc : κ} {state : PeerDocState χ}
    (hmem : ⟨doc, state⟩ ∈ order) (docs : HashMap κ (PeerDocState χ)) :
    (order.foldl updateDoc docs).lookup doc =
      if skipsDoc docs ⟨doc, state⟩ then docs.lookup doc else some state := by
  induction order generalizing docs with
  | nil => nomatch hmem
  | cons entry order ih =>
      obtain ⟨hfresh, hkeys⟩ := List.nodup_cons.mp hkeys
      rw [List.foldl_cons]
      rcases List.mem_cons.mp hmem with heq | hrest
      · rw [← heq] at hfresh ⊢
        rw [lookup_foldl_updateDoc_of_notMem hfresh, lookup_updateDoc_self]
      · have hne : doc ≠ entry.1 := fun heq =>
          hfresh (heq ▸ List.mem_map_of_mem hrest)
        have hold := lookup_updateDoc_of_ne docs hne
        rw [ih hkeys hrest, skipsDoc, skipsDoc, hold]

/-! ## Runs of updates -/

/-- A connection info that arrives while the server is connected, and the order in which its
documents are visited. -/
structure PeerUpdate (κ : Type u) (χ : Type v) where
  info : ConnectionInfo κ χ
  order : List (Entry κ (PeerDocState χ))
  iterates : info.docs.Iterates order

/-- The stored info after some updates. -/
def storedInfo (start : Option (ConnectionInfo κ χ)) (updates : List (PeerUpdate κ χ)) :
    Option (ConnectionInfo κ χ) :=
  updates.foldl (fun info update => updateServerInfo info (some update.info) update.order) start

/-- An info has acknowledged heads of a document. -/
def ConnectionInfo.Acks (info : ConnectionInfo κ χ) (doc : κ) : Prop :=
  ∃ state, info.docs.lookup doc = some state ∧ state.HasAcked

/-- The stored info has acknowledged heads of a document. -/
def StoresAcked (stored : Option (ConnectionInfo κ χ)) (doc : κ) : Prop :=
  ∃ info, stored = some info ∧ info.Acks doc

/-- An update lists a document without a list of acknowledged heads. -/
def PeerUpdate.ListsAbsent (update : PeerUpdate κ χ) (doc : κ) : Prop :=
  ∃ state, update.info.docs.lookup doc = some state ∧ state.lastAckedHeads = none

/-- An old state is kept where the server had acknowledged heads and lists none now. -/
theorem skipsDoc_iff {info : ConnectionInfo κ χ} {doc : κ} {state : PeerDocState χ} :
    skipsDoc info.docs ⟨doc, state⟩ = true ↔ state.beheaded = true ∧ info.Acks doc := by
  simp only [skipsDoc, Option.any_eq_true, Bool.and_eq_true, PeerDocState.acked_iff,
    ConnectionInfo.Acks]
  constructor
  · rintro ⟨old, hold, hbeheaded, hacked⟩
    exact ⟨hbeheaded, old, hold, hacked⟩
  · rintro ⟨hbeheaded, old, hold, hacked⟩
    exact ⟨old, hold, hbeheaded, hacked⟩

/-- What the loop leaves of a document that an update lists. -/
theorem exists_lookup_foldl_updateDoc_iff {info : ConnectionInfo κ χ}
    {order : List (Entry κ (PeerDocState χ))} (hkeys : (order.map Sigma.fst).Nodup) {doc : κ}
    {state : PeerDocState χ} (hmem : ⟨doc, state⟩ ∈ order) :
    (∃ left, (order.foldl updateDoc info.docs).lookup doc = some left ∧ left.HasAcked) ↔
      state.HasAcked ∨ info.Acks doc ∧ state.lastAckedHeads ≠ none := by
  rw [lookup_foldl_updateDoc hkeys hmem]
  by_cases hskips : skipsDoc info.docs ⟨doc, state⟩ = true
  · rw [if_pos hskips]
    obtain ⟨hbeheaded, hacks⟩ := skipsDoc_iff.mp hskips
    have hlisted : state.lastAckedHeads ≠ none := fun hnone =>
      PeerDocState.not_beheaded_of_none hnone hbeheaded
    exact iff_of_true hacks (.inr ⟨hacks, hlisted⟩)
  · rw [if_neg hskips]
    constructor
    · rintro ⟨left, hleft, hacked⟩
      cases hleft
      exact .inl hacked
    · rintro (hacked | ⟨hacks, hlisted⟩)
      · exact ⟨state, rfl, hacked⟩
      · rcases state.hasAcked_cases with hnone | hbeheaded | hacked
        · exact absurd hnone hlisted
        · exact absurd (skipsDoc_iff.mpr ⟨hbeheaded, hacks⟩) hskips
        · exact ⟨state, rfl, hacked⟩

/-- What one update does to the documents with acknowledged heads. -/
theorem storesAcked_updateServerInfo_iff (stored : Option (ConnectionInfo κ χ))
    (update : PeerUpdate κ χ) (doc : κ) :
    StoresAcked (updateServerInfo stored (some update.info) update.order) doc ↔
      update.info.Acks doc ∨ StoresAcked stored doc ∧ ¬ update.ListsAbsent doc := by
  cases stored with
  | none => simp [updateServerInfo, StoresAcked]
  | some info =>
      have hstored : StoresAcked (updateServerInfo (some info) (some update.info) update.order)
          doc ↔ ∃ left, (update.order.foldl updateDoc info.docs).lookup doc = some left ∧
            left.HasAcked := by
        simp [updateServerInfo, StoresAcked, ConnectionInfo.Acks]
      have hold : StoresAcked (some info) doc ↔ info.Acks doc := by
        simp [StoresAcked]
      rw [hstored, hold]
      rcases hlisted : update.info.docs.lookup doc with _ | state
      · have habsent : doc ∉ update.order.map Sigma.fst := by
          rw [update.iterates.mem_keys_iff]
          exact Finmap.lookup_eq_none.mp hlisted
        rw [lookup_foldl_updateDoc_of_notMem habsent]
        simp [ConnectionInfo.Acks, PeerUpdate.ListsAbsent, hlisted]
      · rw [exists_lookup_foldl_updateDoc_iff update.iterates.keys_nodup
          (update.iterates.mem_iff.mpr hlisted)]
        have hacks : update.info.Acks doc ↔ state.HasAcked := by
          simp [ConnectionInfo.Acks, hlisted]
        have habsent : update.ListsAbsent doc ↔ state.lastAckedHeads = none := by
          simp [PeerUpdate.ListsAbsent, hlisted]
        rw [hacks, habsent]

/-- **Acknowledged heads are never forgotten**: every info that is stored later has some. -/
def NeverForgets (start : Option (ConnectionInfo κ χ)) (updates : List (PeerUpdate κ χ)) :
    Prop :=
  ∀ early late rest, early ++ late ++ rest = updates → ∀ doc,
    StoresAcked (storedInfo start early) doc → StoresAcked (storedInfo start (early ++ late)) doc

theorem storedInfo_concat (start : Option (ConnectionInfo κ χ))
    (updates : List (PeerUpdate κ χ)) (update : PeerUpdate κ χ) :
    storedInfo start (updates ++ [update]) =
      updateServerInfo (storedInfo start updates) (some update.info) update.order := by
  rw [storedInfo, List.foldl_append]
  rfl

/-- Stored acknowledged heads have come with some update, or were there at the start. -/
theorem exists_acks_of_storesAcked {start : Option (ConnectionInfo κ χ)}
    {updates : List (PeerUpdate κ χ)} {doc : κ}
    (hstored : StoresAcked (storedInfo start updates) doc) :
    StoresAcked start doc ∨ ∃ update ∈ updates, update.info.Acks doc := by
  induction updates using List.reverseRecOn with
  | nil => exact .inl hstored
  | append_singleton front update ih =>
      rw [storedInfo_concat, storesAcked_updateServerInfo_iff] at hstored
      rcases hstored with hacks | ⟨hstored, -⟩
      · exact .inr ⟨update, by simp, hacks⟩
      · rcases ih hstored with hstart | ⟨earlier, hmem, hacks⟩
        · exact .inl hstart
        · exact .inr ⟨earlier, List.mem_append_left _ hmem, hacks⟩

/-- **Exactly when acknowledged heads are never forgotten**: no update lists a document
without a list of acknowledged heads that had some at the start or in an earlier update. -/
theorem neverForgets_iff (start : Option (ConnectionInfo κ χ))
    (updates : List (PeerUpdate κ χ)) :
    NeverForgets start updates ↔
      ∀ front update back, front ++ update :: back = updates → ∀ doc, update.ListsAbsent doc →
        ¬ StoresAcked start doc ∧ ∀ earlier ∈ front, ¬ earlier.info.Acks doc := by
  constructor
  · intro hnever front update back hupdates doc habsent
    -- What is acknowledged before the update would have to be acknowledged after it.
    have hlost : ∀ early late, early ++ late = front →
        ¬ StoresAcked (storedInfo start early) doc := by
      intro early late hfront hearly
      have hlater := hnever early (late ++ [update]) back (by simp [← hupdates, ← hfront]) doc
        hearly
      rw [← List.append_assoc, storedInfo_concat, storesAcked_updateServerInfo_iff] at hlater
      rcases hlater with ⟨state, hlisted, hacked⟩ | ⟨-, hpresent⟩
      · obtain ⟨absent, hlistedAbsent, hnone⟩ := habsent
        cases hlisted.symm.trans hlistedAbsent
        exact PeerDocState.not_hasAcked_of_none hnone hacked
      · exact hpresent habsent
    refine ⟨hlost [] front rfl, fun earlier hmem hacks => ?_⟩
    obtain ⟨early, late, hfront⟩ := List.append_of_mem hmem
    apply hlost (early ++ [earlier]) late (by simp [hfront])
    rw [storedInfo_concat, storesAcked_updateServerInfo_iff]
    exact .inl hacks
  · intro hlisted early late rest hupdates doc hearly
    induction late using List.reverseRecOn generalizing rest with
    | nil => rwa [List.append_nil]
    | append_singleton late update ih =>
        have hsplit : early ++ late ++ update :: rest = updates := by
          simpa using hupdates
        have hkept := ih (update :: rest) hsplit
        rw [← List.append_assoc, storedInfo_concat, storesAcked_updateServerInfo_iff]
        refine .inr ⟨hkept, fun habsent => ?_⟩
        obtain ⟨hstart, hnone⟩ := hlisted (early ++ late) update rest hsplit doc habsent
        rcases exists_acks_of_storesAcked hkept with hacked | ⟨earlier, hmem, hacks⟩
        · exact hstart hacked
        · exact hnone earlier hmem hacks

/-- One update lists a document with the acknowledged head 7, the next one without a list. -/
def absentUpdates : List (PeerUpdate ℕ ℕ) :=
  [{ info := { lastReceived := none, lastSent := none, docs := .singleton 1 ⟨some [7]⟩ }
     order := [⟨1, ⟨some [7]⟩⟩]
     iterates := rfl },
   { info := { lastReceived := none, lastSent := none, docs := .singleton 1 ⟨none⟩ }
     order := [⟨1, ⟨none⟩⟩]
     iterates := rfl }]

/-- The heads are forgotten. -/
theorem not_neverForgets_absentUpdates : ¬ NeverForgets none absentUpdates := by
  intro hnever
  have hkept := hnever (absentUpdates.take 1) (absentUpdates.drop 1) [] rfl 1
    ⟨_, rfl, _, rfl, [7], rfl, List.cons_ne_nil 7 []⟩
  obtain ⟨info, hinfo, state, hlookup, heads, hheads, -⟩ := hkept
  cases hinfo
  cases hlookup
  nomatch hheads

end Backstitch

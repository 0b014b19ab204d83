import Cohesion.Proofs.Coupling.Relations
import Cohesion.Proofs.Names.ByteOrder
import Cohesion.Proofs.Names.Numbering

/-!
# Recording calls and callers

A call graph comes into being by recording calls, and callers on their own, one after the other. What
it knows afterwards are the set of recorded callers and the set of recorded relations; their order and
how often they were recorded leave no trace in it.
-/

namespace Cohesion

/-- A call, or a caller whether it calls anything or not. -/
inductive Recording where
  | call (caller callee : String)
  | caller (name : String)
  deriving DecidableEq

namespace Recording

def callerName : Recording → String
  | call source _ => source
  | caller name => name

def relation? : Recording → Option (String × String)
  | call source target => some (source, target)
  | caller _ => none

def callers (recordings : List Recording) : Finset String :=
  (recordings.map callerName).toFinset

def relations (recordings : List Recording) : Finset (String × String) :=
  (recordings.filterMap relation?).toFinset

variable (recordings : List Recording) (recording : Recording)

theorem mem_callers_append {name : String} : name ∈ callers (recordings ++ [recording]) ↔
    name = recording.callerName ∨ name ∈ callers recordings := by
  simp only [callers, List.mem_toFinset, List.map_append, List.mem_append, List.map_cons,
    List.map_nil, List.mem_singleton, or_comm]

theorem mem_relations_append {relation : String × String} :
    relation ∈ relations (recordings ++ [recording]) ↔
      relation ∈ relations recordings ∨ recording.relation? = some relation := by
  simp only [relations, List.mem_toFinset, List.mem_filterMap, List.mem_append,
    List.mem_singleton, or_and_right, exists_or, exists_eq_left]

end Recording

namespace CallGraph

def record (graph : CallGraph) : Recording → CallGraph
  | .call caller callee => graph.addCall caller callee
  | .caller name => graph.addCaller name

def ofRecordings (recordings : List Recording) : CallGraph := recordings.foldl record empty

section Recorded

variable (graph : CallGraph) (recording : Recording) (recordings : List Recording)

theorem mem_callers_record {name : String} : name ∈ (graph.record recording).calls.keys ↔
    name = recording.callerName ∨ name ∈ graph.calls.keys := by
  cases recording with
  | call caller callee => exact NameMap.mem_keys_adjust
  | caller known => exact NameMap.mem_keys_adjust

theorem calls_record {caller callee : String} : (graph.record recording).Calls caller callee ↔
    graph.Calls caller callee ∨ recording.relation? = some (caller, callee) := by
  cases recording with
  | call source target =>
      rw [record, calls_add_call]
      simp only [Recording.relation?, Option.some.injEq, Prod.mk.injEq, eq_comm]
  | caller known =>
      rw [record, calls_add_caller]
      simp [Recording.relation?]

theorem of_recordings_append :
    ofRecordings (recordings ++ [recording]) = (ofRecordings recordings).record recording :=
  List.foldl_concat ..

theorem mem_callers_of_recordings {name : String} :
    name ∈ (ofRecordings recordings).calls.keys ↔ name ∈ Recording.callers recordings := by
  induction recordings using List.reverseRecOn with
  | nil => simp [Recording.callers, ofRecordings, NameMap.mem_keys_iff, empty]
  | append_singleton earlier recording induction =>
      rw [of_recordings_append, mem_callers_record, Recording.mem_callers_append, induction]

theorem calls_of_recordings {caller callee : String} :
    (ofRecordings recordings).Calls caller callee ↔
      (caller, callee) ∈ Recording.relations recordings := by
  induction recordings using List.reverseRecOn with
  | nil => simp [Recording.relations, ofRecordings, Calls, callees?, empty]
  | append_singleton earlier recording induction =>
      rw [of_recordings_append, calls_record, Recording.mem_relations_append, induction]

theorem of_pairs_eq_of_recordings (pairs : List (String × String)) :
    ofPairs pairs = ofRecordings (pairs.map fun pair => .call pair.1 pair.2) := by
  rw [ofPairs, ofRecordings, List.foldl_map]
  rfl

end Recorded

section Known

variable {graph other : CallGraph}

theorem calls_of_found {caller callee : String} {callees : NameSet}
    (found : graph.callees? caller = some callees) :
    graph.Calls caller callee ↔ callee ∈ callees := by
  rw [Calls, found]
  simp

/-- Callers and relations are all that a call graph consists of. -/
theorem eq_of_calls (callers : ∀ name, name ∈ graph.calls.keys ↔ name ∈ other.calls.keys)
    (calls : ∀ caller callee, graph.Calls caller callee ↔ other.Calls caller callee) :
    graph = other := by
  have lookups : graph.calls = other.calls := by
    ext name : 1
    have known := callers name
    rw [NameMap.mem_keys_iff, NameMap.mem_keys_iff] at known
    cases found : graph.calls.get? name with
    | none =>
        rw [eq_comm, Option.eq_none_iff_forall_ne_some]
        intro callees otherFound
        rcases known.mpr ⟨callees, otherFound⟩ with ⟨_, absurdity⟩
        rw [found] at absurdity
        cases absurdity
    | some callees =>
        rcases known.mp ⟨callees, found⟩ with ⟨others, otherFound⟩
        rw [otherFound, Option.some.injEq]
        ext callee
        rw [← calls_of_found found, ← calls_of_found otherFound]
        exact calls name callee
  cases graph
  cases other
  cases lookups
  rfl

def rows (graph : CallGraph) : List (String × List String) :=
  graph.toList.map fun row => (row.1, row.2.toList)

theorem rows_callers : graph.rows.map Prod.fst = graph.calls.keys.names := by
  rw [rows, List.map_map]
  rfl

theorem found_of_row {row : String × List String} (member : row ∈ graph.rows) :
    ∃ callees, graph.callees? row.1 = some callees ∧ row.2 = callees.names := by
  rcases List.mem_map.mp member with ⟨entry, stored, rfl⟩
  exact ⟨entry.2, (NameMap.mem_entries_iff _).mp stored, rfl⟩

theorem relation_count_eq : graph.relationCount = graph.relations.length := by
  rw [relations, List.length_flatMap, relationCount, NameMap.values, List.foldr_map, List.sum,
    List.foldr_map]
  simp only [NameSet.size, NameSet.toList, List.length_map]
  rfl

end Known

/-- A listing of callers and relations: every caller once, in byte order, and with it every callee
once, in byte order too. -/
structure Lists (callers : Finset String) (relations : Finset (String × String))
    (rows : List (String × List String)) : Prop where
  callers_ascend : (rows.map Prod.fst).Pairwise fun first second =>
    nameBytes first < nameBytes second
  callers_listed : ∀ name, name ∈ rows.map Prod.fst ↔ name ∈ callers
  callees_ascend : ∀ row ∈ rows, row.2.Pairwise fun first second =>
    nameBytes first < nameBytes second
  callees_listed : ∀ row ∈ rows, ∀ callee, callee ∈ row.2 ↔ (row.1, callee) ∈ relations

/-- The graph knows these callers and these relations and nothing else, and counts and lists them. -/
structure Holds (callers : Finset String) (relations : Finset (String × String))
    (graph : CallGraph) : Prop where
  known : ∀ caller, (∃ callees, graph.callees? caller = some callees) ↔ caller ∈ callers
  called : ∀ caller callees, graph.callees? caller = some callees →
    ∀ callee, callee ∈ callees ↔ (caller, callee) ∈ relations
  caller_count : graph.callerCount = callers.card
  relation_count : graph.relationCount = relations.card
  listed : Lists callers relations (graph.toList.map fun row => (row.1, row.2.toList))
  outlined : ∃ rows, Lists callers relations rows ∧ graph.outline = String.join (rows.map fun row =>
    row.1 ++ " calls: [" ++ String.intercalate ", " row.2 ++ "]\n")

section Holding

variable {callers : Finset String} {relations : Finset (String × String)} {graph : CallGraph}
  (known : ∀ name, name ∈ graph.calls.keys ↔ name ∈ callers)
  (calls : ∀ caller callee, graph.Calls caller callee ↔ (caller, callee) ∈ relations)

include known calls

theorem lists_rows : Lists callers relations graph.rows where
  callers_ascend := by
    rw [rows_callers]
    exact graph.calls.keys.ascending.imp fun less => lt_iff_name_bytes.mp less
  callers_listed name := by
    rw [rows_callers]
    exact known name
  callees_ascend row member := by
    rcases found_of_row member with ⟨callees, _, same⟩
    rw [same]
    exact callees.ascending.imp fun less => lt_iff_name_bytes.mp less
  callees_listed row member callee := by
    rcases found_of_row member with ⟨callees, found, same⟩
    rw [same, ← calls, calls_of_found found]
    rfl

theorem holds_of_calls : Holds callers relations graph where
  known caller := by
    rw [← known, NameMap.mem_keys_iff]
    rfl
  called caller callees found callee := by
    rw [← calls, calls_of_found found]
  caller_count := by
    have listed : callers = graph.calls.keys.names.toFinset := by
      ext name
      rw [← known, List.mem_toFinset]
      rfl
    rw [listed, List.toFinset_card_of_nodup graph.calls.keys.names_nodup]
    exact (List.length_map ..).symm
  relation_count := by
    have listed : relations = graph.relations.toFinset := by
      ext ⟨caller, callee⟩
      rw [← calls, List.mem_toFinset, mem_relations]
    rw [listed, List.toFinset_card_of_nodup graph.relations_nodup, relation_count_eq]
  listed := lists_rows known calls
  outlined := by
    refine ⟨graph.rows, lists_rows known calls, ?_⟩
    rw [outline, rows, List.map_map]
    rfl

end Holding

theorem holds_recordings (recordings : List Recording) :
    Holds (Recording.callers recordings) (Recording.relations recordings)
      (ofRecordings recordings) :=
  holds_of_calls (fun _ => mem_callers_of_recordings recordings)
    fun _ _ => calls_of_recordings recordings

theorem of_recordings_eq_iff (recordings others : List Recording) :
    ofRecordings recordings = ofRecordings others ↔
      Recording.callers recordings = Recording.callers others ∧
        Recording.relations recordings = Recording.relations others := by
  constructor
  · intro same
    constructor
    · ext name
      rw [← mem_callers_of_recordings, same, mem_callers_of_recordings]
    · ext ⟨caller, callee⟩
      rw [← calls_of_recordings, same, calls_of_recordings]
  · rintro ⟨sameCallers, sameRelations⟩
    apply eq_of_calls
    · intro name
      rw [mem_callers_of_recordings, sameCallers, mem_callers_of_recordings]
    · intro caller callee
      rw [calls_of_recordings, sameRelations, calls_of_recordings]

/-- Pairs name their callers, so the relations alone decide. -/
theorem of_pairs_eq_iff (pairs others : List (String × String)) :
    ofPairs pairs = ofPairs others ↔ ∀ pair, pair ∈ pairs ↔ pair ∈ others := by
  have related : ∀ listed : List (String × String),
      Recording.relations (listed.map fun pair => .call pair.1 pair.2) = listed.toFinset := by
    intro listed
    simp [Recording.relations, List.filterMap_map, Function.comp_def, Recording.relation?]
  have named : ∀ listed : List (String × String),
      Recording.callers (listed.map fun pair => .call pair.1 pair.2) =
        listed.toFinset.image Prod.fst := by
    intro listed
    ext name
    simp [Recording.callers, Recording.callerName]
  rw [of_pairs_eq_of_recordings, of_pairs_eq_of_recordings, of_recordings_eq_iff, related, related,
    named, named]
  constructor
  · rintro ⟨_, same⟩ pair
    rw [← List.mem_toFinset, same, List.mem_toFinset]
  · intro same
    have sets : pairs.toFinset = others.toFinset := by
      ext pair
      rw [List.mem_toFinset, List.mem_toFinset, same]
    rw [sets]
    exact ⟨rfl, rfl⟩

end CallGraph

/-- After any recordings the graph knows exactly the recorded callers and relations. Recordings give
the same graph exactly if they have these in common, lists of pairs exactly if they hold the same
pairs, and whatever is computed from their graphs is then the same. -/
theorem call_graph_is_set_of_relations :
    (∀ recordings : List Recording, CallGraph.Holds (Recording.callers recordings)
      (Recording.relations recordings) (CallGraph.ofRecordings recordings)) ∧
    (∀ recordings others : List Recording,
      CallGraph.ofRecordings recordings = CallGraph.ofRecordings others ↔
        Recording.callers recordings = Recording.callers others ∧
          Recording.relations recordings = Recording.relations others) ∧
    (∀ pairs others : List (String × String),
      CallGraph.ofPairs pairs = CallGraph.ofPairs others ↔ ∀ pair, pair ∈ pairs ↔ pair ∈ others) ∧
    ∀ pairs others : List (String × String), (∀ pair, pair ∈ pairs ↔ pair ∈ others) →
      ∀ {Result : Type} (compute : CallGraph → Result),
        compute (CallGraph.ofPairs pairs) = compute (CallGraph.ofPairs others) := by
  refine ⟨CallGraph.holds_recordings, CallGraph.of_recordings_eq_iff, CallGraph.of_pairs_eq_iff, ?_⟩
  intro pairs others same Result compute
  rw [(CallGraph.of_pairs_eq_iff pairs others).mpr same]

/-- A caller without callees, and a call that is recorded twice. -/
example : (CallGraph.ofRecordings [.call "b" "c", .caller "a", .call "b" "a", .call "b" "c"]).outline
    = "a calls: []\nb calls: [a, c]\n" := by decide

end Cohesion

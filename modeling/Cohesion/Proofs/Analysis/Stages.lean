import Cohesion.Analysis.Basic
import Cohesion.Proofs.Clustering.Crossings

/-!
# The stages of an analysis

All stages work on the same coupling graph, and a later stage goes on from the dendrogram of the
stage before it. Thresholds are looked at in the last stage only, and there before anything else: a
threshold that is not finite is reported even if there is nothing to cluster.
-/

namespace Cohesion

variable {W : Type} [Weight W]

section Thresholds

theorem check_thresholds_first {before after : List W} {value : W}
    (finite : ∀ threshold ∈ before, Weight.isFinite threshold = true)
    (notFinite : Weight.isFinite value = false) :
    checkThresholds (before ++ value :: after) = .error (.invalidThreshold value) := by
  have none_before : before.find? (fun threshold => !Weight.isFinite threshold) = none := by
    rw [List.find?_eq_none]
    intro threshold member
    simp [finite threshold member]
  have found : (before ++ value :: after).find? (fun threshold => !Weight.isFinite threshold) =
      some value := by
    simp [List.find?_append, none_before, notFinite]
  rw [checkThresholds, found]

theorem check_thresholds_finite {thresholds : List W}
    (finite : ∀ threshold ∈ thresholds, Weight.isFinite threshold = true) :
    checkThresholds thresholds = .ok () := by
  have none_found : thresholds.find? (fun threshold => !Weight.isFinite threshold) = none := by
    rw [List.find?_eq_none]
    intro threshold member
    simp [finite threshold member]
  rw [checkThresholds, none_found]

theorem all_finite_or_refused (thresholds : List W) :
    (∀ threshold ∈ thresholds, Weight.isFinite threshold = true) ∨
      ∃ value, checkThresholds thresholds = .error (.invalidThreshold value) := by
  cases found : thresholds.find? (fun threshold => !Weight.isFinite threshold) with
  | none =>
      left
      intro threshold member
      simpa using List.find?_eq_none.mp found threshold member
  | some value =>
      right
      apply Exists.intro value
      rw [checkThresholds, found]

theorem map_m_of_ok {Item Result Failure : Type} {action : Item → Except Failure Result}
    {result : Item → Result} {items : List Item}
    (succeeds : ∀ item ∈ items, action item = .ok (result item)) :
    items.mapM action = .ok (items.map result) := by
  induction items with
  | nil => rfl
  | cons item rest induction =>
      rw [List.forall_mem_cons] at succeeds
      rw [List.mapM_cons, succeeds.1, induction succeeds.2]
      rfl

namespace Dendrogram

def partitionAt (dendrogram : Dendrogram W) (affinity : Affinity W) (threshold : W) :
    Partition W :=
  let modules := dendrogram.cut affinity threshold [dendrogram.root]
  let classCount := dendrogram.sizeAt dendrogram.root
  ⟨threshold, classCount, modules, Partition.diagnose classCount modules.length⟩

theorem partition_of_finite (dendrogram : Dendrogram W) (affinity : Affinity W) {threshold : W}
    (finite : Weight.isFinite threshold = true) :
    dendrogram.partition affinity threshold = .ok (dendrogram.partitionAt affinity threshold) :=
  if_pos finite

theorem sweep_of_finite (dendrogram : Dendrogram W) (affinity : Affinity W) {thresholds : List W}
    (finite : ∀ threshold ∈ thresholds, Weight.isFinite threshold = true) :
    dendrogram.sweep affinity thresholds =
      .ok (thresholds.map (dendrogram.partitionAt affinity)) := by
  have partitions : thresholds.mapM (dendrogram.partition affinity) =
      .ok (thresholds.map (dendrogram.partitionAt affinity)) :=
    map_m_of_ok fun threshold member =>
      dendrogram.partition_of_finite affinity (finite threshold member)
  unfold sweep
  rw [check_thresholds_finite finite, partitions]
  rfl

end Dendrogram

end Thresholds

section Results

variable (separator : Separator) (calls : CallGraph)

def couplingReport : Report W :=
  let coupling : CouplingGraph W := CouplingGraph.ofCalls separator calls
  ⟨calls.stats, coupling.summary, coupling, none, []⟩

theorem coupling_result (thresholds : List W) :
    (analyse calls ⟨separator, .coupling, thresholds⟩).2 = .ok (couplingReport separator calls) :=
  rfl

theorem dendrogram_result (thresholds : List W) :
    (analyse calls ⟨separator, .dendrogram, thresholds⟩).2 =
      match (CouplingGraph.ofCalls separator calls : CouplingGraph W).cluster? with
      | none => .error .emptyGraph
      | some dendrogram =>
          .ok { couplingReport separator calls with dendrogram := some dendrogram } := by
  unfold analyse
  dsimp only
  cases (CouplingGraph.ofCalls separator calls : CouplingGraph W).cluster? with
  | none => rfl
  | some dendrogram => rfl

theorem modules_result_of_error {thresholds : List W} {error : AnalysisError W}
    (refused : checkThresholds thresholds = .error error) :
    (analyse calls ⟨separator, .modules, thresholds⟩).2 = .error error := by
  unfold analyse
  dsimp only
  rw [refused]

theorem modules_result {thresholds : List W}
    (finite : ∀ threshold ∈ thresholds, Weight.isFinite threshold = true) :
    (analyse calls ⟨separator, .modules, thresholds⟩).2 =
      match (CouplingGraph.ofCalls separator calls : CouplingGraph W).cluster? with
      | none => .error .emptyGraph
      | some dendrogram => .ok { couplingReport separator calls with
          partitions := thresholds.map (dendrogram.partitionAt
            (Affinity.ofGraph (CouplingGraph.ofCalls separator calls))) } := by
  unfold analyse
  dsimp only
  rw [check_thresholds_finite finite]
  cases (CouplingGraph.ofCalls separator calls : CouplingGraph W).cluster? with
  | none => rfl
  | some dendrogram =>
      dsimp only
      rw [dendrogram.sweep_of_finite _ finite]
      rfl

/-- A report is the one of the coupling stage, by itself, with the dendrogram of the clustering, or with
one partition of that dendrogram for each threshold. -/
theorem report_cases {options : AnalysisOptions W} {report : Report W}
    (reported : (analyse calls options).2 = .ok report) :
    report = couplingReport options.separator calls ∨
      ∃ dendrogram, (CouplingGraph.ofCalls options.separator calls).cluster? = some dendrogram ∧
        (report = { couplingReport options.separator calls with dendrogram := some dendrogram } ∨
          (∀ threshold ∈ options.thresholds, Weight.isFinite threshold = true) ∧
          report = { couplingReport options.separator calls with
            partitions := options.thresholds.map (dendrogram.partitionAt
              (Affinity.ofGraph (CouplingGraph.ofCalls options.separator calls))) }) := by
  obtain ⟨separator, stage, thresholds⟩ := options
  cases stage with
  | coupling =>
      rw [coupling_result, Except.ok.injEq] at reported
      exact .inl reported.symm
  | dendrogram =>
      rw [dendrogram_result] at reported
      split at reported
      · cases reported
      · next dendrogram clustered =>
          exact .inr ⟨dendrogram, clustered, .inl (Except.ok.inj reported).symm⟩
  | modules =>
      rcases all_finite_or_refused thresholds with finite | ⟨value, refused⟩
      · rw [modules_result separator calls finite] at reported
        split at reported
        · cases reported
        · next dendrogram clustered =>
            exact .inr ⟨dendrogram, clustered, .inr ⟨finite, (Except.ok.inj reported).symm⟩⟩
      · rw [modules_result_of_error separator calls refused] at reported
        cases reported

/-- Whatever the stage, a report says the same of the calls and of the coupling. -/
theorem report_coupling {options : AnalysisOptions W} {report : Report W}
    (reported : (analyse calls options).2 = .ok report) :
    report.callGraph = calls.stats ∧
      report.coupling = CouplingGraph.ofCalls options.separator calls ∧
      report.summary = report.coupling.summary := by
  rcases report_cases calls reported with rfl | ⟨_, _, rfl | ⟨_, rfl⟩⟩ <;> exact ⟨rfl, rfl, rfl⟩

theorem cluster_of_calls_eq_none_iff :
    (CouplingGraph.ofCalls separator calls : CouplingGraph W).cluster? = none ↔
      (calls.crossingRelations separator).card = 0 := by
  rw [CouplingGraph.of_calls_eq_weighed, CouplingGraph.cluster_weighed_eq_none_iff]

theorem dendrogram_error_iff (thresholds : List W) (error : AnalysisError W) :
    (analyse calls ⟨separator, .dendrogram, thresholds⟩).2 = .error error ↔
      error = .emptyGraph ∧ ∀ caller callees, calls.callees? caller = some callees →
        ∀ callee ∈ callees, separator.classOf caller = separator.classOf callee := by
  rw [dendrogram_result, ← CallGraph.card_crossing_relations_eq_zero,
    ← cluster_of_calls_eq_none_iff (W := W)]
  cases (CouplingGraph.ofCalls separator calls : CouplingGraph W).cluster? with
  | none => simp [eq_comm]
  | some dendrogram => simp

/-- Once all thresholds are accepted the modules stage fails where the dendrogram stage does. -/
theorem modules_error_iff {thresholds : List W}
    (finite : ∀ threshold ∈ thresholds, Weight.isFinite threshold = true)
    (error : AnalysisError W) :
    (analyse calls ⟨separator, .modules, thresholds⟩).2 = .error error ↔
      (analyse calls ⟨separator, .dendrogram, thresholds⟩).2 = .error error := by
  rw [dendrogram_result, modules_result separator calls finite]
  cases (CouplingGraph.ofCalls separator calls : CouplingGraph W).cluster? with
  | none => exact Iff.rfl
  | some dendrogram => simp

end Results

/-- How the results of the stages of one analysis hang together, whatever the thresholds are. -/
structure StagesAgree (W : Type) [Weight W] (separator : Separator) (calls : CallGraph) : Prop where
  coupling_succeeds : ∀ thresholds : List W,
    ∃ report, (analyse calls ⟨separator, .coupling, thresholds⟩).2 = .ok report
  coupling_thresholds : ∀ thresholds others : List W,
    analyse calls ⟨separator, .coupling, thresholds⟩ =
      analyse calls ⟨separator, .coupling, others⟩
  dendrogram_thresholds : ∀ thresholds others : List W,
    analyse calls ⟨separator, .dendrogram, thresholds⟩ =
      analyse calls ⟨separator, .dendrogram, others⟩
  same_coupling : ∀ (stage other : Stage) (thresholds others : List W) (report second : Report W),
    (analyse calls ⟨separator, stage, thresholds⟩).2 = .ok report →
    (analyse calls ⟨separator, other, others⟩).2 = .ok second →
    report.callGraph = second.callGraph ∧ report.summary = second.summary ∧
      report.coupling = second.coupling
  dendrogram_error : ∀ (thresholds : List W) (error : AnalysisError W),
    (analyse calls ⟨separator, .dendrogram, thresholds⟩).2 = .error error ↔
      error = .emptyGraph ∧ ∀ caller callees, calls.callees? caller = some callees →
        ∀ callee ∈ callees, separator.classOf caller = separator.classOf callee
  first_not_finite : ∀ (before after : List W) (value : W),
    (∀ threshold ∈ before, Weight.isFinite threshold = true) → Weight.isFinite value = false →
    (analyse calls ⟨separator, .modules, before ++ value :: after⟩).2 =
      .error (.invalidThreshold value)
  modules_error : ∀ thresholds : List W,
    (∀ threshold ∈ thresholds, Weight.isFinite threshold = true) → ∀ error : AnalysisError W,
    ((analyse calls ⟨separator, .modules, thresholds⟩).2 = .error error ↔
      (analyse calls ⟨separator, .dendrogram, thresholds⟩).2 = .error error)
  modules_found : ∀ (thresholds : List W) (report : Report W),
    (∀ threshold ∈ thresholds, Weight.isFinite threshold = true) →
    (analyse calls ⟨separator, .dendrogram, thresholds⟩).2 = .ok report →
    ∃ dendrogram divided, report.dendrogram = some dendrogram ∧
      (analyse calls ⟨separator, .modules, thresholds⟩).2 = .ok divided ∧
      List.Forall₂ (fun threshold partition =>
        dendrogram.partition (Affinity.ofGraph report.coupling) threshold = .ok partition)
        thresholds divided.partitions

/-- The stages of an analysis agree, and their errors come in a fixed order. -/
theorem stages_agree (W : Type) [Weight W] (separator : Separator) (calls : CallGraph) :
    StagesAgree W separator calls := by
  constructor
  case coupling_succeeds => exact fun thresholds => ⟨_, coupling_result separator calls thresholds⟩
  case coupling_thresholds => exact fun thresholds others => rfl
  case dendrogram_thresholds => exact fun thresholds others => rfl
  case same_coupling =>
    intro stage other thresholds others report second reported secondReported
    obtain ⟨stats, coupling, summary⟩ := report_coupling calls reported
    obtain ⟨secondStats, secondCoupling, secondSummary⟩ := report_coupling calls secondReported
    rw [summary, secondSummary, stats, secondStats, coupling, secondCoupling]
    exact ⟨rfl, rfl, rfl⟩
  case dendrogram_error => exact dendrogram_error_iff separator calls
  case first_not_finite =>
    intro before after value finite notFinite
    exact modules_result_of_error separator calls (check_thresholds_first finite notFinite)
  case modules_error =>
    intro thresholds finite error
    exact modules_error_iff separator calls finite error
  case modules_found =>
    intro thresholds report finite reported
    rw [dendrogram_result] at reported
    rw [modules_result separator calls finite]
    cases clustered : (CouplingGraph.ofCalls separator calls : CouplingGraph W).cluster? with
    | none =>
        rw [clustered] at reported
        cases reported
    | some dendrogram =>
        rw [clustered, Except.ok.injEq] at reported
        rw [← reported]
        apply Exists.intro dendrogram
        apply Exists.intro
        apply And.intro rfl
        apply And.intro rfl
        rw [List.forall₂_map_right_iff, List.forall₂_same]
        intro threshold member
        exact dendrogram.partition_of_finite _ (finite threshold member)

/-- No class boundary is crossed, but the threshold that is not a number is what is reported. -/
example : (analyse (.ofPairs [("a.f", "a.g")]) ⟨.standard, .modules, [0.5, 0.0 / 0.0]⟩).2 =
    .error (.invalidThreshold (0.0 / 0.0 : Float)) := by
  decide +kernel

end Cohesion

import Mathlib.Algebra.Order.BigOperators.Group.Finset
import Cohesion.Proofs.Analysis.Stages
import Cohesion.Proofs.Clustering.Conservation
import Cohesion.Proofs.Coupling.Nonnegative
import Cohesion.Proofs.Partition.Cover

/-!
# Very low and very high thresholds

The exact coupling of a call graph is one in all, so the mean affinity of all its classes is one
over the number of their pairs, and no node has a greater one than one. Below the former threshold the
whole tree is one module, from one on every class is a module of its own.
-/

namespace Cohesion

section Single

variable {W : Type} [Weight W] {affinity : Affinity W} {threshold : W}

theorem Arena.Joint.accepted_iff {arena : Arena W} {id left right : Nat} {coupling : W}
    (joint : arena.Joint id left right coupling) {node : Node W}
    (stored : arena.nodes[id]? = some node) {average : W}
    (found : affinity.average? (arena.classesAt id) = some average) :
    (∃ module, node.module? affinity threshold = some module) ↔
      Weight.exceeds average threshold = true := by
  have merged := joint.stored
  rw [stored, Option.some.injEq] at merged
  rw [joint.classes_at] at found
  rw [merged, Node.module?, found]
  by_cases above : Weight.exceeds average threshold = true
  · simp [above]
  · simp [above]

variable {classes : NameSet} {dendrogram : Dendrogram W} (grown : dendrogram.Grown classes)

include grown

theorem Dendrogram.Grown.classes_of_single {id : Nat} (bound : id < dendrogram.nodes.size)
    {module : Module W} (single : dendrogram.cut affinity threshold [id] = [module]) :
    module.classes = dendrogram.classesAt id := by
  have bounded : ∀ top ∈ [id], top < dendrogram.nodes.size :=
    fun top member => List.mem_singleton.mp member ▸ bound
  have listed := grown.cut_names_perm affinity threshold bounded
  rw [single, List.flatMap_singleton, List.flatMap_singleton] at listed
  ext name
  exact listed.mem_iff

/-- A refused node is cut into several modules, since a single one would have the classes of a node
below one of its children. -/
theorem Dendrogram.Grown.several_of_refused {id : Nat} {node : Node W}
    (stored : dendrogram.nodes[id]? = some node)
    (refused : node.module? affinity threshold = none) :
    (dendrogram.cut affinity threshold [id]).length ≠ 1 := by
  intro single
  obtain ⟨module, modules⟩ := List.length_eq_one_iff.mp single
  have bound := Arena.lt_of_stored stored
  have whole := grown.classes_of_single bound modules
  obtain ⟨left, right, coupling, joint, children⟩ := grown.joint_of_refused stored refused
  rw [Arena.cut_of_refused stored refused, children] at modules
  have member : module ∈ dendrogram.cut affinity threshold ([] ++ [left, right]) := by
    rw [modules]
    exact List.mem_singleton_self module
  obtain ⟨top, isChild, lower, lowerBound, below, named⟩ := Arena.mem_cut member
  have same := grown.classes_at_injective lowerBound bound (named.symm.trans whole)
  have notAbove := below.le
  have leftBelow := joint.left_active.1
  have rightBelow := joint.right_active.1
  rw [List.nil_append, List.mem_cons, List.mem_singleton] at isChild
  omega

theorem Dendrogram.Grown.single_iff_accepted {id : Nat} {node : Node W}
    (stored : dendrogram.nodes[id]? = some node) :
    (dendrogram.cut affinity threshold [id]).length = 1 ↔
      ∃ module, node.module? affinity threshold = some module := by
  constructor
  · intro single
    apply Option.ne_none_iff_exists'.mp
    intro refused
    exact grown.several_of_refused stored refused single
  · intro ⟨module, accepted⟩
    rw [Arena.cut_of_accepted stored accepted, Arena.cut_nil]
    rfl

end Single

section Exact

variable {separator : Separator} {calls : CallGraph}

theorem nonnegative_of_calls :
    (CouplingGraph.ofCalls separator calls : CouplingGraph Rat).NonnegativeWeights := by
  intro edge member
  have positive := CouplingGraph.exact_shares.weight_pos edge member
  exact ⟨rfl, (rat_nonnegative_iff.mpr positive.le).2⟩

variable {dendrogram : Dendrogram Rat}
  (clustered : (CouplingGraph.ofCalls separator calls).cluster? = some dendrogram)
  (crossing : 0 < (calls.crossingRelations separator).card)

include clustered

theorem coupling_at_nonneg (id : Nat) : 0 ≤ dendrogram.couplingAt id := by
  unfold Arena.couplingAt
  split
  · next stored =>
      rw [coupling_of_merged clustered stored, ← rat_nonnegative_iff]
      exact CouplingGraph.nonnegative_between nonnegative_of_calls _ _
  · exact le_rfl

include crossing

/-- What a node has inside is a part of the whole coupling. -/
theorem inner_le_one {id : Nat} (bound : id < dendrogram.nodes.size) :
    (Affinity.ofGraph (CouplingGraph.ofCalls separator calls)).inner (dendrogram.classesAt id) ≤
      1 := by
  have grown := cluster_grown clustered
  calc (Affinity.ofGraph (CouplingGraph.ofCalls separator calls)).inner (dendrogram.classesAt id)
      = ∑ merge ∈ dendrogram.mergesBelow id, dendrogram.couplingAt merge :=
        inner_eq_merges clustered bound
    _ ≤ ∑ merge ∈ dendrogram.mergesBelow dendrogram.root, dendrogram.couplingAt merge := by
        apply Finset.sum_le_sum_of_subset_of_nonneg
        · intro merge member
          rw [Dendrogram.mem_merges_below] at member ⊢
          exact ⟨member.1, (grown.below_root bound).trans member.2⟩
        · intro merge _ _
          exact coupling_at_nonneg clustered merge
    _ = 1 := by
        rw [← inner_eq_merges clustered dendrogram.root_lt, grown.root_classes]
        exact CouplingGraph.inner_of_calls crossing

theorem average_le_one {id : Nat} (bound : id < dendrogram.nodes.size) {average : Rat}
    (found : (Affinity.ofGraph (CouplingGraph.ofCalls separator calls)).average?
      (dendrogram.classesAt id) = some average) : average ≤ 1 := by
  by_cases several : 2 ≤ (dendrogram.classesAt id).size
  · rw [Affinity.average_eq _ several, Option.some.injEq] at found
    have some_pair := Affinity.one_le_pair_count several
    rw [← found, div_le_one (lt_of_lt_of_le zero_lt_one some_pair)]
    exact (inner_le_one clustered crossing bound).trans some_pair
  · rw [Affinity.average?, if_pos (by omega)] at found
    cases found

/-- The mean affinity of all classes is one over the number of their pairs. -/
theorem average_of_root (several : 2 ≤ (dendrogram.classesAt dendrogram.root).size) :
    (Affinity.ofGraph (CouplingGraph.ofCalls separator calls)).average?
      (dendrogram.classesAt dendrogram.root) =
        some ((2 : Rat) / ((dendrogram.classesAt dendrogram.root).size *
          ((dendrogram.classesAt dendrogram.root).size - 1))) := by
  rw [Affinity.average_eq _ several, (cluster_grown clustered).root_classes,
    CouplingGraph.inner_of_calls crossing, one_div_div]

theorem singleton_of_accepted {threshold : Rat} (high : 1 ≤ threshold) {id : Nat}
    {node : Node Rat} (stored : dendrogram.nodes[id]? = some node) {module : Module Rat}
    (accepted : node.module? (Affinity.ofGraph (CouplingGraph.ofCalls separator calls)) threshold =
      some module) : ∃ name, module.classes = NameSet.singleton name := by
  have grown := cluster_grown clustered
  have bound := Arena.lt_of_stored stored
  rcases grown.node_cases bound with ⟨_, leaf⟩ | ⟨left, right, coupling, joint⟩
  · rw [stored, Option.some.injEq] at leaf
    rw [Node.module_classes accepted, leaf]
    exact ⟨_, rfl⟩
  · have average := Affinity.average_eq
      (Affinity.ofGraph (CouplingGraph.ofCalls separator calls)) (grown.two_le_size bound joint)
    have atMost := average_le_one clustered crossing bound average
    have above := of_decide_eq_true ((joint.accepted_iff stored average).mp ⟨module, accepted⟩)
    exact absurd (high.trans_lt above) (not_lt_of_ge atMost)

theorem single_iff_below (several : 2 ≤ (dendrogram.classesAt dendrogram.root).size)
    (threshold : Rat) :
    (dendrogram.cut (Affinity.ofGraph (CouplingGraph.ofCalls separator calls)) threshold
      [dendrogram.root]).length = 1 ↔
      threshold < 2 / ((dendrogram.classesAt dendrogram.root).size *
        ((dendrogram.classesAt dendrogram.root).size - 1)) := by
  have grown := cluster_grown clustered
  rcases grown.node_cases dendrogram.root_lt with ⟨_, leaf⟩ | ⟨left, right, coupling, joint⟩
  · rw [Arena.classes_at_stored leaf] at several
    contradiction
  · have average := average_of_root clustered crossing several
    rw [grown.single_iff_accepted joint.stored, joint.accepted_iff joint.stored average]
    exact decide_eq_true_iff

end Exact

structure Partition.Extremes (classes : NameSet) (partition : Partition Rat) : Prop where
  single_iff : partition.modules.length = 1 ↔
    partition.threshold < 2 / ((classes.size : Rat) * (classes.size - 1))
  single_whole : ∀ module, partition.modules = [module] → module.classes = classes
  low : partition.threshold ≤ 0 → partition.modules.length = 1
  high : 1 ≤ partition.threshold →
    ∀ module ∈ partition.modules, ∃ name, module.classes = NameSet.singleton name

theorem extremes_of_calls {separator : Separator} {calls : CallGraph} {dendrogram : Dendrogram Rat}
    (clustered : (CouplingGraph.ofCalls separator calls).cluster? = some dendrogram)
    (crossing : 0 < (calls.crossingRelations separator).card)
    (several : 2 ≤ (CouplingGraph.ofCalls separator calls : CouplingGraph Rat).classes.size)
    (threshold : Rat) :
    (dendrogram.partitionAt (Affinity.ofGraph (CouplingGraph.ofCalls separator calls))
      threshold).Extremes (CouplingGraph.ofCalls separator calls : CouplingGraph Rat).classes := by
  have grown := cluster_grown clustered
  rw [← grown.root_classes] at several ⊢
  have single_iff := single_iff_below clustered crossing several threshold
  constructor
  case single_iff => exact single_iff
  case single_whole => exact fun module single => grown.classes_of_single dendrogram.root_lt single
  case low =>
    intro low
    have some_pair := Affinity.one_le_pair_count several
    apply single_iff.mpr
    exact low.trans_lt (div_pos two_pos (by linarith))
  case high =>
    intro high module member
    obtain ⟨_, _, id, node, _, stored, accepted⟩ := Arena.accepted_of_mem_cut member
    exact singleton_of_accepted clustered crossing high stored accepted

/-- Where some relation crosses a class boundary, the modules stage reports a single module exactly
for the thresholds below the mean affinity of all classes, and single classes from one on. -/
theorem extreme_thresholds {separator : Separator} {calls : CallGraph}
    (crossing : 0 < (calls.crossingRelations separator).card) :
    2 ≤ (CouplingGraph.ofCalls separator calls : CouplingGraph Rat).classes.size ∧
      ∀ threshold : Rat, ∃ report partition,
        (analyse calls ⟨separator, .modules, [threshold]⟩).2 = .ok report ∧
        report.partitions = [partition] ∧ partition.threshold = threshold ∧
        partition.Extremes (CouplingGraph.ofCalls separator calls : CouplingGraph Rat).classes := by
  obtain ⟨dendrogram, clustered⟩ := CouplingGraph.weighed_clusters
    (Weight.share (W := Rat) (calls.crossingRelations separator).card) crossing
  have several := CouplingGraph.two_le_classes_weighed
    (Weight.share (W := Rat) (calls.crossingRelations separator).card) crossing
  rw [← CouplingGraph.of_calls_eq_weighed] at clustered several
  apply And.intro several
  intro threshold
  have finite : ∀ value ∈ [threshold], Weight.isFinite value = true := fun _ _ => rfl
  have result := modules_result separator calls finite
  rw [clustered] at result
  exact ⟨_, _, result, rfl, rfl, extremes_of_calls clustered crossing several threshold⟩

/-- Four classes in two pairs, so that one sixth is the mean affinity of all of them. -/
theorem two_equal_pairs_stay_whole : ∃ report partition,
    (analyse twoEqualPairs ⟨.standard, .modules, [1 / 7]⟩).2 = .ok report ∧
    report.partitions = [partition] ∧ partition.modules.length = 1 ∧
    partition.Extremes
      (CouplingGraph.ofCalls .standard twoEqualPairs : CouplingGraph Rat).classes := by
  have crossing : 0 < (twoEqualPairs.crossingRelations .standard).card := by decide +kernel
  obtain ⟨_, found⟩ := extreme_thresholds crossing
  obtain ⟨report, partition, reported, partitions, threshold, extremes⟩ := found (1 / 7)
  have size : (CouplingGraph.ofCalls .standard twoEqualPairs : CouplingGraph Rat).classes.size =
      4 := by
    decide +kernel
  apply Exists.intro report
  apply Exists.intro partition
  apply And.intro reported
  apply And.intro partitions
  apply And.intro _ extremes
  rw [extremes.single_iff, threshold, size]
  norm_num

end Cohesion

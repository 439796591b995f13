import Mathlib.Data.Char
import Mathlib.Data.List.Lex
import Zabbix.Common.Text

/-!
# Tags of maintenances

The tags of an event are compared with those of a maintenance.  Both lists are sorted by name,
and a position in a list is the rest of the list from there.  `strcmp` is the order of texts.
-/

namespace Zabbix.Maintenance.TagMatching

open Common.Text List

/-- `ZBX_MAINTENANCE_TAG_OPERATOR_*` -/
inductive TagOperator where
  | equal
  | like
deriving DecidableEq

/-- `zbx_dc_maintenance_tag_t` -/
structure DcMaintenanceTag where
  op : TagOperator
  tag : Text
  value : Text
deriving DecidableEq

/-- `zbx_tag_t` -/
structure ZbxTag where
  tag : Text
  value : Text
deriving DecidableEq

/-- `MAINTENANCE_TAG_EVAL_TYPE_*` -/
inductive EvalType where
  | andOr
  | or
deriving DecidableEq

/-- The fields of `zbx_dc_maintenance_t` that matching reads. -/
structure DcMaintenance where
  tagsEvaltype : EvalType
  tags : List DcMaintenanceTag
deriving DecidableEq

def strstr (needle : Text) : Text → Bool
  | [] => needle.isEmpty
  | char :: rest => needle.isPrefixOf (char :: rest) || strstr needle rest

def dcMaintenanceTagValueMatch (mtag : DcMaintenanceTag) (etag : ZbxTag) : Bool :=
  match mtag.op with
  | .like => strstr mtag.value etag.value
  | .equal => etag.value = mtag.value

/-- The result and the positions behind a call. -/
structure RangeMatch where
  ret : Bool
  mtags : List DcMaintenanceTag
  etags : List ZbxTag
deriving DecidableEq

/-- `dc_maintenance_match_tag_range` at the maintenance tag `mtag`, `others` behind it. -/
def dcMaintenanceMatchTagRange (mtag : DcMaintenanceTag) (others : List DcMaintenanceTag)
    (etags : List ZbxTag) : RangeMatch :=
  let name := mtag.tag
  -- find last maintenance tag with the required name
  let mrange := mtag :: others.takeWhile (·.tag = name)
  let mtags := others.dropWhile (·.tag = name)
  -- find first event tag with the required name
  match etags.dropWhile (·.tag < name) with
  | [] => ⟨false, mtags, []⟩
  | etag :: later =>
    if name < etag.tag then ⟨false, mtags, etag :: later⟩
    else
      -- find last event tag with the required name
      let erange := etag :: later.takeWhile (·.tag = name)
      ⟨mrange.any fun mtag => erange.any fun etag => dcMaintenanceTagValueMatch mtag etag,
        mtags, later.dropWhile (·.tag = name)⟩

theorem length_dcMaintenanceMatchTagRange (mtag : DcMaintenanceTag)
    (others : List DcMaintenanceTag) (etags : List ZbxTag) :
    (dcMaintenanceMatchTagRange mtag others etags).mtags.length ≤ others.length := by
  have isShorter := (dropWhile_suffix (l := others) (·.tag = mtag.tag)).length_le
  unfold dcMaintenanceMatchTagRange
  dsimp only
  split
  · exact isShorter
  · split
    · exact isShorter
    · exact isShorter

def dcMaintenanceMatchTagsOr : List DcMaintenanceTag → List ZbxTag → Bool
  | mtag :: others, etag :: later =>
    let found := dcMaintenanceMatchTagRange mtag others (etag :: later)
    if found.ret then true else dcMaintenanceMatchTagsOr found.mtags found.etags
  | _, _ => false
termination_by mtags => mtags.length
decreasing_by exact Nat.lt_succ_of_le (length_dcMaintenanceMatchTagRange mtag others _)

def dcMaintenanceMatchTagsAndor : List DcMaintenanceTag → List ZbxTag → Bool
  | mtag :: others, etag :: later =>
    let found := dcMaintenanceMatchTagRange mtag others (etag :: later)
    if found.ret then dcMaintenanceMatchTagsAndor found.mtags found.etags else false
  | mtags, _ => mtags.isEmpty
termination_by mtags => mtags.length
decreasing_by exact Nat.lt_succ_of_le (length_dcMaintenanceMatchTagRange mtag others _)

def dcMaintenanceMatchTags (maintenance : DcMaintenance) (tags : List ZbxTag) : Bool :=
  if maintenance.tags.isEmpty then true
  else if tags.isEmpty then false
  else
    match maintenance.tagsEvaltype with
    | .andOr => dcMaintenanceMatchTagsAndor maintenance.tags tags
    | .or => dcMaintenanceMatchTagsOr maintenance.tags tags

/-! ## What matches -/

/-- The operator of the maintenance tag holds between the values. -/
def Matches (mtag : DcMaintenanceTag) (etag : ZbxTag) : Prop :=
  etag.tag = mtag.tag ∧
    match mtag.op with
    | .like => mtag.value <:+: etag.value
    | .equal => etag.value = mtag.value

def NameMatches (mtags : List DcMaintenanceTag) (etags : List ZbxTag) (name : Text) : Prop :=
  ∃ mtag ∈ mtags, mtag.tag = name ∧ ∃ etag ∈ etags, Matches mtag etag

def TagsMatch (maintenance : DcMaintenance) (etags : List ZbxTag) : Prop :=
  match maintenance.tagsEvaltype with
  | .or => maintenance.tags = [] ∨ ∃ mtag ∈ maintenance.tags, ∃ etag ∈ etags, Matches mtag etag
  | .andOr => ∀ mtag ∈ maintenance.tags, NameMatches maintenance.tags etags mtag.tag

theorem strstr_eq_true_iff (needle text : Text) : strstr needle text = true ↔ needle <:+: text := by
  induction text with
  | nil => rw [strstr, List.isEmpty_iff, infix_nil]
  | cons char rest ih =>
    rw [strstr, Bool.or_eq_true, isPrefixOf_iff_prefix, ih, infix_cons_iff]

theorem matches_iff {mtag : DcMaintenanceTag} {etag : ZbxTag} (sameName : etag.tag = mtag.tag) :
    Matches mtag etag ↔ dcMaintenanceTagValueMatch mtag etag = true := by
  rw [Matches, dcMaintenanceTagValueMatch, and_iff_right sameName]
  cases mtag.op with
  | equal => exact decide_eq_true_iff.symm
  | like => exact (strstr_eq_true_iff _ _).symm

/-! ## Sorted lists -/

section Sorted

variable {α : Type} {key : α → Text} {list : List α}

def SortedBy (key : α → Text) (list : List α) : Prop :=
  list.Pairwise fun first second => key first ≤ key second

theorem SortedBy.suffix {rest : List α} (sorted : SortedBy key list) (isSuffix : rest <:+ list) :
    SortedBy key rest :=
  List.Pairwise.sublist isSuffix.sublist sorted

theorem not_of_mem_dropWhile {holds : α → Bool}
    (passes : list.Pairwise fun first second => holds second = true → holds first = true) :
    ∀ element ∈ list.dropWhile holds, holds element = false := by
  induction list with
  | nil => exact fun _ isIn => absurd isIn not_mem_nil
  | cons head tail ih =>
    obtain ⟨toHead, others⟩ := pairwise_cons.mp passes
    intro element isIn
    by_cases atHead : holds head = true
    · rw [dropWhile_cons_of_pos atHead] at isIn
      exact ih others element isIn
    · rw [dropWhile_cons_of_neg atHead] at isIn
      rw [← Bool.not_eq_true]
      intro isHolding
      obtain rfl | isLater := mem_cons.mp isIn
      · exact atHead isHolding
      · exact atHead (toHead element isLater isHolding)

theorem mem_iff_takeWhile_or (holds : α → Bool) (element : α) :
    element ∈ list ↔ element ∈ list.takeWhile holds ∨ element ∈ list.dropWhile holds := by
  rw [← mem_append, takeWhile_append_dropWhile]

theorem SortedBy.mem_dropWhile_lt (sorted : SortedBy key list) (name : Text) (element : α) :
    element ∈ list.dropWhile (key · < name) ↔ element ∈ list ∧ name ≤ key element := by
  have passes : list.Pairwise fun first second =>
      decide (key second < name) = true → decide (key first < name) = true :=
    sorted.imp fun isOrder isLess => decide_eq_true (isOrder.trans_lt (of_decide_eq_true isLess))
  constructor
  · intro isIn
    exact ⟨(dropWhile_suffix _).mem isIn,
      not_lt.mp (of_decide_eq_false (not_of_mem_dropWhile passes element isIn))⟩
  · rintro ⟨isIn, notLess⟩
    refine ((mem_iff_takeWhile_or (key · < name) element).mp isIn).resolve_left fun isFirst => ?_
    have isLess := mem_takeWhile_imp isFirst
    exact notLess.not_gt (of_decide_eq_true isLess)

theorem SortedBy.mem_of_least {name : Text} (sorted : SortedBy key list)
    (isLeast : ∀ element ∈ list, name ≤ key element) (element : α) :
    (element ∈ list.takeWhile (key · = name) ↔ element ∈ list ∧ key element = name) ∧
      (element ∈ list.dropWhile (key · = name) ↔ element ∈ list ∧ name < key element) := by
  have taken (isIn : element ∈ list.takeWhile (key · = name)) : key element = name := by
    have isName := mem_takeWhile_imp isIn
    exact of_decide_eq_true isName
  have dropped (isIn : element ∈ list.dropWhile (key · = name)) : ¬key element = name := by
    refine of_decide_eq_false (not_of_mem_dropWhile (List.Pairwise.imp_of_mem ?_ sorted) element
      isIn)
    intro first second isFirst _ isOrder isName
    exact decide_eq_true (le_antisymm (isOrder.trans (of_decide_eq_true isName).le)
      (isLeast first isFirst))
  have split : element ∈ list ↔ _ := mem_iff_takeWhile_or (key · = name) element
  constructor
  · constructor
    · exact fun isIn => ⟨split.mpr (Or.inl isIn), taken isIn⟩
    · exact fun ⟨isIn, isName⟩ => (split.mp isIn).resolve_right fun isLater =>
        dropped isLater isName
  · constructor
    · exact fun isIn => ⟨split.mpr (Or.inr isIn),
        (isLeast element (split.mpr (Or.inr isIn))).lt_of_ne' (dropped isIn)⟩
    · exact fun ⟨isIn, isAbove⟩ => (split.mp isIn).resolve_left fun isFirst =>
        isAbove.ne' (taken isFirst)

end Sorted

/-! ## Ranges -/

variable {mtag : DcMaintenanceTag} {mtags others : List DcMaintenanceTag} {etags : List ZbxTag}

/-- A call decides about the first name, and goes on behind it in both lists. -/
structure Decides (name : Text) (mtags : List DcMaintenanceTag) (etags : List ZbxTag)
    (found : RangeMatch) : Prop where
  ret : found.ret = true ↔ NameMatches mtags etags name
  sortedM : SortedBy DcMaintenanceTag.tag found.mtags
  sortedE : SortedBy ZbxTag.tag found.etags
  mtags : ∀ mtag, mtag ∈ found.mtags ↔ mtag ∈ mtags ∧ name < mtag.tag
  etags : ∀ etag, etag ∈ found.etags ↔ etag ∈ etags ∧ name < etag.tag

theorem not_nameMatches {name : Text} (noName : ∀ etag ∈ etags, etag.tag ≠ name) :
    ¬NameMatches mtags etags name := by
  rintro ⟨mtag, -, rfl, etag, isTag, isMatch⟩
  exact noName etag isTag isMatch.1

theorem dcMaintenanceMatchTagRange_decides
    (sortedM : SortedBy DcMaintenanceTag.tag (mtag :: others)) (sortedE : SortedBy ZbxTag.tag etags) :
    Decides mtag.tag (mtag :: others) etags (dcMaintenanceMatchTagRange mtag others etags) := by
  have isLeast : ∀ other ∈ mtag :: others, mtag.tag ≤ other.tag := by
    refine forall_mem_cons.mpr ⟨le_rfl, (pairwise_cons.mp sortedM).1⟩
  have atFirst : decide (mtag.tag = mtag.tag) = true := decide_eq_true rfl
  have ofM := sortedM.mem_of_least isLeast
  have firstM : (mtag :: others).takeWhile (·.tag = mtag.tag) =
        mtag :: others.takeWhile (·.tag = mtag.tag) ∧
      (mtag :: others).dropWhile (·.tag = mtag.tag) = others.dropWhile (·.tag = mtag.tag) :=
    ⟨takeWhile_cons_of_pos atFirst, dropWhile_cons_of_pos atFirst⟩
  rw [firstM.1, firstM.2] at ofM
  have restM : SortedBy DcMaintenanceTag.tag (others.dropWhile (·.tag = mtag.tag)) :=
    sortedM.suffix ((dropWhile_suffix _).trans (suffix_cons _ _))
  have fromName := sortedE.mem_dropWhile_lt mtag.tag
  have restE := sortedE.suffix (dropWhile_suffix (·.tag < mtag.tag))
  unfold dcMaintenanceMatchTagRange
  dsimp only
  split
  · next isEmpty =>
      rw [isEmpty] at fromName
      have noLater (etag : ZbxTag) (isTag : etag ∈ etags) : ¬mtag.tag ≤ etag.tag := fun isLater =>
        absurd ((fromName etag).mpr ⟨isTag, isLater⟩) not_mem_nil
      refine ⟨iff_of_false Bool.false_ne_true (not_nameMatches fun etag isTag isName =>
        noLater etag isTag isName.ge), restM, .nil, fun other => (ofM other).2, fun etag => ?_⟩
      exact iff_of_false not_mem_nil fun ⟨isTag, isLater⟩ => noLater etag isTag isLater.le
  · next first later isRest =>
      rw [isRest] at fromName restE
      split
      · next isAbove =>
          have areAbove : ∀ etag ∈ first :: later, mtag.tag < etag.tag :=
            forall_mem_cons.mpr ⟨isAbove, fun etag isLater =>
              isAbove.trans_le ((pairwise_cons.mp restE).1 etag isLater)⟩
          refine ⟨iff_of_false Bool.false_ne_true (not_nameMatches fun etag isTag isName =>
            (areAbove etag ((fromName etag).mpr ⟨isTag, isName.ge⟩)).ne' isName), restM, restE,
            fun other => (ofM other).2, fun etag => ?_⟩
          exact ⟨fun isIn => ⟨((fromName etag).mp isIn).1, areAbove etag isIn⟩,
            fun ⟨isTag, isLater⟩ => (fromName etag).mpr ⟨isTag, isLater.le⟩⟩
      · next notAbove =>
          have isName : first.tag = mtag.tag := le_antisymm (not_lt.mp notAbove)
            ((fromName first).mp mem_cons_self).2
          have areLater : ∀ etag ∈ first :: later, mtag.tag ≤ etag.tag := fun etag isIn =>
            ((fromName etag).mp isIn).2
          have ofE := restE.mem_of_least areLater
          have firstE : (first :: later).takeWhile (·.tag = mtag.tag) =
                first :: later.takeWhile (·.tag = mtag.tag) ∧
              (first :: later).dropWhile (·.tag = mtag.tag) = later.dropWhile (·.tag = mtag.tag) :=
            ⟨takeWhile_cons_of_pos (decide_eq_true isName),
              dropWhile_cons_of_pos (decide_eq_true isName)⟩
          rw [firstE.1, firstE.2] at ofE
          refine ⟨?_, restM, restE.suffix ((dropWhile_suffix _).trans (suffix_cons _ _)),
            fun other => (ofM other).2, fun etag => ?_⟩
          · rw [List.any_eq_true]
            simp only [List.any_eq_true]
            constructor
            · rintro ⟨other, isOther, etag, isTag, holds⟩
              obtain ⟨isOther, otherName⟩ := (ofM other).1.mp isOther
              obtain ⟨isTag, tagName⟩ := (ofE etag).1.mp isTag
              exact ⟨other, isOther, otherName, etag, ((fromName etag).mp isTag).1,
                (matches_iff (tagName.trans otherName.symm)).mpr holds⟩
            · rintro ⟨other, isOther, otherName, etag, isTag, isMatch⟩
              have tagName := isMatch.1.trans otherName
              exact ⟨other, (ofM other).1.mpr ⟨isOther, otherName⟩, etag,
                (ofE etag).1.mpr ⟨(fromName etag).mpr ⟨isTag, tagName.ge⟩, tagName⟩,
                (matches_iff isMatch.1).mp isMatch⟩
          · rw [(ofE etag).2, fromName etag, and_assoc]
            exact and_congr_right fun _ => and_iff_right_of_imp le_of_lt

/-! ## All ranges -/

theorem Decides.exists_matches_iff {name : Text} {found : RangeMatch}
    (decides : Decides name mtags etags found) (isAbove : name < mtag.tag) :
    (∃ etag ∈ found.etags, Matches mtag etag) ↔ ∃ etag ∈ etags, Matches mtag etag := by
  constructor
  · rintro ⟨etag, isTag, isMatch⟩
    exact ⟨etag, ((decides.etags etag).mp isTag).1, isMatch⟩
  · rintro ⟨etag, isTag, isMatch⟩
    exact ⟨etag, (decides.etags etag).mpr ⟨isTag, isAbove.trans_eq isMatch.1.symm⟩, isMatch⟩

theorem Decides.nameMatches_iff {name other : Text} {found : RangeMatch}
    (decides : Decides name mtags etags found) (isAbove : name < other) :
    NameMatches found.mtags found.etags other ↔ NameMatches mtags etags other := by
  constructor
  · rintro ⟨mtag, isTag, rfl, isMatch⟩
    exact ⟨mtag, ((decides.mtags mtag).mp isTag).1, rfl,
      (decides.exists_matches_iff isAbove).mp isMatch⟩
  · rintro ⟨mtag, isTag, rfl, isMatch⟩
    exact ⟨mtag, (decides.mtags mtag).mpr ⟨isTag, isAbove⟩, rfl,
      (decides.exists_matches_iff isAbove).mpr isMatch⟩

theorem dcMaintenanceMatchTagsOr_iff (sortedM : SortedBy DcMaintenanceTag.tag mtags)
    (sortedE : SortedBy ZbxTag.tag etags) :
    dcMaintenanceMatchTagsOr mtags etags = true ↔
      ∃ mtag ∈ mtags, ∃ etag ∈ etags, Matches mtag etag := by
  fun_induction dcMaintenanceMatchTagsOr mtags etags with
  | case1 mtag others etag later found matched =>
    have decides := dcMaintenanceMatchTagRange_decides sortedM sortedE
    obtain ⟨other, isOther, -, isMatch⟩ := decides.ret.mp matched
    exact iff_of_true rfl ⟨other, isOther, isMatch⟩
  | case2 mtag others etag later found notMatched ih =>
    have decides := dcMaintenanceMatchTagRange_decides sortedM sortedE
    rw [ih decides.sortedM decides.sortedE]
    constructor
    · rintro ⟨other, isOther, isMatch⟩
      obtain ⟨isOther, isAbove⟩ := (decides.mtags other).mp isOther
      exact ⟨other, isOther, (decides.exists_matches_iff isAbove).mp isMatch⟩
    · rintro ⟨other, isOther, isMatch⟩
      have notName : mtag.tag ≠ other.tag := fun sameName =>
        notMatched (decides.ret.mpr ⟨other, isOther, sameName.symm, isMatch⟩)
      have isAbove : mtag.tag < other.tag := by
        obtain rfl | isLater := mem_cons.mp isOther
        · exact absurd rfl notName
        · exact ((pairwise_cons.mp sortedM).1 other isLater).lt_of_ne notName
      exact ⟨other, (decides.mtags other).mpr ⟨isOther, isAbove⟩,
        (decides.exists_matches_iff isAbove).mpr isMatch⟩
  | case3 mtags etags notBoth =>
    refine iff_of_false Bool.false_ne_true ?_
    rintro ⟨mtag, isOther, etag, isTag, -⟩
    obtain ⟨first, others, rfl⟩ := exists_cons_of_ne_nil (ne_nil_of_mem isOther)
    obtain ⟨head, later, rfl⟩ := exists_cons_of_ne_nil (ne_nil_of_mem isTag)
    exact notBoth first others head later rfl rfl

theorem dcMaintenanceMatchTagsAndor_iff (sortedM : SortedBy DcMaintenanceTag.tag mtags)
    (sortedE : SortedBy ZbxTag.tag etags) :
    dcMaintenanceMatchTagsAndor mtags etags = true ↔
      ∀ mtag ∈ mtags, NameMatches mtags etags mtag.tag := by
  fun_induction dcMaintenanceMatchTagsAndor mtags etags with
  | case1 mtag others etag later found matched ih =>
    have decides := dcMaintenanceMatchTagRange_decides sortedM sortedE
    rw [ih decides.sortedM decides.sortedE]
    constructor
    · intro areMatched other isOther
      by_cases sameName : other.tag = mtag.tag
      · rw [sameName]
        exact decides.ret.mp matched
      · have isAbove : mtag.tag < other.tag := by
          obtain rfl | isLater := mem_cons.mp isOther
          · exact absurd rfl sameName
          · exact ((pairwise_cons.mp sortedM).1 other isLater).lt_of_ne' sameName
        exact (decides.nameMatches_iff isAbove).mp
          (areMatched other ((decides.mtags other).mpr ⟨isOther, isAbove⟩))
    · intro areMatched other isOther
      obtain ⟨isOther, isAbove⟩ := (decides.mtags other).mp isOther
      exact (decides.nameMatches_iff isAbove).mpr (areMatched other isOther)
  | case2 mtag others etag later found notMatched =>
    have decides := dcMaintenanceMatchTagRange_decides sortedM sortedE
    exact iff_of_false Bool.false_ne_true fun areMatched =>
      notMatched (decides.ret.mpr (areMatched mtag mem_cons_self))
  | case3 mtags etags notBoth =>
    rw [List.isEmpty_iff]
    constructor
    · rintro rfl
      exact fun _ isIn => absurd isIn not_mem_nil
    · intro areMatched
      by_contra notEmpty
      obtain ⟨first, others, rfl⟩ := exists_cons_of_ne_nil notEmpty
      obtain ⟨other, -, -, etag, isTag, -⟩ := areMatched first mem_cons_self
      obtain ⟨head, later, rfl⟩ := exists_cons_of_ne_nil (ne_nil_of_mem isTag)
      exact notBoth first others head later rfl rfl

/-- Matching is what the evaluation type says of the tags. -/
theorem dcMaintenanceMatchTags_iff {maintenance : DcMaintenance}
    (sortedM : SortedBy DcMaintenanceTag.tag maintenance.tags)
    (sortedE : SortedBy ZbxTag.tag etags) :
    dcMaintenanceMatchTags maintenance etags = true ↔ TagsMatch maintenance etags := by
  obtain ⟨evaltype, mtags⟩ := maintenance
  unfold dcMaintenanceMatchTags TagsMatch
  dsimp only at sortedM ⊢
  split
  · next isEmpty =>
      obtain rfl := List.isEmpty_iff.mp isEmpty
      cases evaltype with
      | or => exact iff_of_true rfl (Or.inl rfl)
      | andOr => exact iff_of_true rfl fun _ isIn => absurd isIn not_mem_nil
  · next notEmpty =>
      rw [List.isEmpty_iff] at notEmpty
      have noTag : ¬mtags = [] := notEmpty
      split
      · next isEmpty =>
          obtain rfl := List.isEmpty_iff.mp isEmpty
          refine iff_of_false Bool.false_ne_true ?_
          cases evaltype with
          | or =>
            rintro (isEmpty | ⟨_, _, _, isIn, _⟩)
            · exact notEmpty isEmpty
            · exact not_mem_nil isIn
          | andOr =>
            intro areMatched
            obtain ⟨first, others, rfl⟩ := exists_cons_of_ne_nil notEmpty
            obtain ⟨_, _, _, _, isIn, _⟩ := areMatched first mem_cons_self
            exact not_mem_nil isIn
      · cases evaltype with
        | or => exact (dcMaintenanceMatchTagsOr_iff sortedM sortedE).trans (or_iff_right noTag).symm
        | andOr => exact dcMaintenanceMatchTagsAndor_iff sortedM sortedE

theorem dcMaintenanceMatchTags_iff_repeated :
    dcMaintenanceMatchTags
        ⟨.andOr, [⟨.equal, ['a'], ['0']⟩, ⟨.like, ['a'], ['1']⟩, ⟨.equal, ['c'], ['2']⟩]⟩
        [⟨['a'], ['3', '1']⟩, ⟨['b'], []⟩, ⟨['c'], ['2']⟩] = true ↔
      TagsMatch ⟨.andOr, [⟨.equal, ['a'], ['0']⟩, ⟨.like, ['a'], ['1']⟩, ⟨.equal, ['c'], ['2']⟩]⟩
        [⟨['a'], ['3', '1']⟩, ⟨['b'], []⟩, ⟨['c'], ['2']⟩] :=
  dcMaintenanceMatchTags_iff (by unfold SortedBy; decide) (by unfold SortedBy; decide)

end Zabbix.Maintenance.TagMatching

import PDXearch.Common
import PDXearch.Create.DistanceMetric
import PDXearch.Lib.Loops

/-!
# The options of an index

`CREATE INDEX` verifies the options when it plans the statement; the constructor of the index reads
them again, and puts a default in place of what it does not understand. That is no loss: what the
plan has let through the constructor takes as it was written.
-/

namespace PDXearch

open Lib

/-! ## Maps -/

/-- `StringUtil::CIEquals` -/
def ciEquals (a b : String) : Bool := a.toList.map Char.toLower = b.toList.map Char.toLower

theorem ciEquals_iff {a b : String} :
    ciEquals a b = true ↔ a.toList.map Char.toLower = b.toList.map Char.toLower :=
  decide_eq_true_iff

theorem ciEquals_congr {a b : String} (h : ciEquals a b = true) (c : String) :
    ciEquals a c = ciEquals b c := by
  rw [ciEquals, ciEquals, ciEquals_iff.mp h]

/-- `case_insensitive_map_t` -/
structure CaseInsensitiveMap (A : Type) where
  entries : List (String × A)
  unique : entries.Pairwise fun a b => ¬ ciEquals a.1 b.1

namespace CaseInsensitiveMap

variable {A : Type}

def find (m : CaseInsensitiveMap A) (key : String) : Option A :=
  (m.entries.find? fun entry => ciEquals entry.1 key).map Prod.snd

/-- `m` has this value for the key, in whatever case. -/
def Maps (m : CaseInsensitiveMap A) (key : String) (value : A) : Prop :=
  ∃ entry ∈ m.entries, ciEquals entry.1 key ∧ entry.2 = value

theorem find_eq_some_iff (m : CaseInsensitiveMap A) (key : String) (value : A) :
    m.find key = some value ↔ m.Maps key value := by
  have hfoundKey : ∀ {found : String × A}, (m.entries.find? fun entry => ciEquals entry.1 key) =
      some found → ciEquals found.1 key = true := fun h =>
    List.find?_some (p := fun entry : String × A => ciEquals entry.1 key) h
  constructor
  · intro h
    obtain ⟨entry, hentry, rfl⟩ := Option.map_eq_some_iff.mp h
    exact ⟨entry, List.mem_of_find?_eq_some hentry, hfoundKey hentry, rfl⟩
  · rintro ⟨entry, hentry, hkey, rfl⟩
    have hsome : (m.entries.find? fun entry => ciEquals entry.1 key).isSome :=
      List.find?_isSome.mpr ⟨entry, hentry, hkey⟩
    obtain ⟨found, hfound⟩ := Option.isSome_iff_exists.mp hsome
    have hsame : ciEquals found.1 entry.1 := ciEquals_iff.mpr
      ((ciEquals_iff.mp (hfoundKey hfound)).trans (ciEquals_iff.mp hkey).symm)
    -- two entries for one key are the same entry
    have hsymm : Std.Symm fun a b : String × A => ¬ ciEquals a.1 b.1 :=
      ⟨fun a b hab hba => hab (ciEquals_iff.mpr (ciEquals_iff.mp hba).symm)⟩
    have heq : found = entry := by
      by_contra hne
      exact m.unique.forall (List.mem_of_find?_eq_some hfound) hentry hne hsame
    rw [find, hfound, heq]
    rfl

theorem find_eq_none_iff (m : CaseInsensitiveMap A) (key : String) :
    m.find key = none ↔ ∀ value, ¬ m.Maps key value := by
  simp only [← find_eq_some_iff, Option.eq_none_iff_forall_ne_some, ne_eq]

end CaseInsensitiveMap

/-! ## Verification and use -/

/-- `PDX::Quantization` -/
inductive QuantizationType
  | f32
  | u8
  | f16
  | bf
  deriving DecidableEq

/-- `Value`, as an option has it; of another type only its text matters. -/
inductive OptionValue
  | varchar (value : String)
  | integer (value : Int32)
  | other (text : String)
  deriving DecidableEq

/-- `DISTANCE_METRIC_MAP` -/
def distanceMetricMap : CaseInsensitiveMap DistanceMetric where
  entries := [("l2sq", .l2sq), ("cosine", .cosine)]
  unique := by decide

/-- `QUANTIZATION_MAP` -/
def quantizationMap : CaseInsensitiveMap QuantizationType where
  entries := [("f32", .f32), ("u8", .u8)]
  unique := by decide

def defaultNProbe : Int32 := 24

/-- A name that is looked up in a map; the two options of this kind. Of the two entries of such a map
an iteration visits the later one first. -/
def verifyName {A : Type} (option : String) (allowed : CaseInsensitiveMap A) :
    OptionValue → Except String Unit
  | .varchar name =>
    if (allowed.find name).isSome then .ok ()
    else .error ("PDXearch index '" ++ option ++ "' must be one of: " ++
      String.intercalate ", " (allowed.entries.reverse.map fun entry => "'" ++ entry.1 ++ "'"))
  | _ => .error ("PDXearch index '" ++ option ++ "' must be a string")

example : verifyName "metric" distanceMetricMap (.varchar "l2") =
    .error "PDXearch index 'metric' must be one of: 'cosine', 'l2sq'" := by decide +kernel

/-- The body of the loop over the options. -/
def verifyOption (key : String) (value : OptionValue) : Except String Unit :=
  if ciEquals key "metric" then verifyName "metric" distanceMetricMap value
  else if ciEquals key "quantization" then verifyName "quantization" quantizationMap value
  else if ciEquals key "n_probe" then
    match value with
    | .integer nProbe =>
      if nProbe.toInt < 0 then
        .error ("PDXearch index 'n_probe' must be at least 0, default is " ++
          toString defaultNProbe.toInt)
      else .ok ()
    | _ => .error "PDXearch index 'n_probe' must be an integer"
  else if ciEquals key "seed" then
    match value with
    | .integer _ => .ok ()
    | _ => .error "PDXearch index 'seed' must be between -2147483647 and 2147483647, inclusive"
  else .error ("Unknown option for PDXearch index: '" ++ key ++ "'")

/-- The types that the key expressions can have. -/
inductive LogicalType
  | array (child : LogicalType) (size : Nat)
  | float
  | other (name : String)

/-- The checks of the key expressions. -/
def verifyKey : List LogicalType → Except String Nat
  | [.array .float size] =>
    if pdxMaxDims < size then
      .error ("PDXearch index FLOAT array length (i.e., dimensions) must be less than or equal " ++
        "to " ++ toString pdxMaxDims ++ ", got " ++ toString size)
    else .ok size
  | [.array _ _] => .error "PDXearch index key type must be FLOAT"
  | [_] => .error "PDXearch index keys must be of type FLOAT[N]"
  | _ => .error "PDXearch indexes can only be created over a single column of keys."

/-- The checks of `PDXearchIndex::CreatePlan`; the dimension is what the plan goes on with. -/
def createPlan (options : CaseInsensitiveMap OptionValue) (keys : List LogicalType)
    (estimatedCardinality : Nat) : Except String Nat := do
  options.entries.forM fun entry => verifyOption entry.1 entry.2
  let numDimensions ← verifyKey keys
  if estimatedCardinality = 0 then throw "PDXearch index cannot be created on an empty table."
  return numDimensions

/-- `Value::GetValue<string>` -/
def OptionValue.getString : OptionValue → String
  | .varchar value => value
  | .integer value => toString value.toInt
  | .other text => text

/-- `Value::GetValue<int32_t>`; the cast of a text, which can fail, is a parameter. -/
def OptionValue.getInt32 (cast : String → Except String Int32) : OptionValue → Except String Int32
  | .varchar value => cast value
  | .integer value => .ok value
  | .other text => cast text

/-- `IndexConstraintType` -/
inductive IndexConstraintType
  | none
  | unique
  | primary
  | foreign
  deriving DecidableEq

/-- What the wrapper and the index are set up with. -/
structure IndexSettings where
  distanceMetric : DistanceMetric
  quantization : QuantizationType
  numDimensions : Nat
  nProbe : UInt32
  seed : Int32
  distanceFunctions : List String

/-- An option that is read with a default. -/
def optionOr {A B : Type} (option : Option A) (read : A → Except String B) (default : B) :
    Except String B :=
  match option with
  | some value => read value
  | none => .ok default

/-- A name that is read from a map, if it is there. -/
def nameOr {A : Type} (allowed : CaseInsensitiveMap A) (option : Option OptionValue) (default : A) :
    A :=
  (option.bind fun value => allowed.find value.getString).getD default

/-- The `InternalException` of the wrapper. -/
def estimatedCardinalityIsZero : String :=
  "Something went wrong: estimated_cardinality is 0. This is likely because a malformed " ++
    "persisted index was loaded. Index persistence is not supported yet, but DuckDB will still " ++
    "try to persist it. Open your database file manually (duckdb test.db) and drop the " ++
    "index(es). Run 'SELECT sql FROM duckdb_indexes();' to see the indexes, and then 'DROP " ++
    "INDEX index_name;' to drop the unused index(es)."

/-- The constructor of `PDXearchIndex`, on an array type of the given size. -/
def PDXearchIndex.new (cast : String → Except String Int32) (randomSeed : Int32)
    (indexConstraintType : IndexConstraintType) (numDimensions : Nat)
    (options : CaseInsensitiveMap OptionValue) (estimatedCardinality : Nat) :
    Except String IndexSettings := do
  if indexConstraintType ≠ .none then
    throw "PDXearch indexes do not support unique or primary key constraints"
  let distanceMetric := nameOr distanceMetricMap (options.find "metric") .l2sq
  let quantization := nameOr quantizationMap (options.find "quantization") .u8
  let nProbe ← optionOr (options.find "n_probe") (OptionValue.getInt32 cast) defaultNProbe
  let seed ← optionOr (options.find "seed") (OptionValue.getInt32 cast) randomSeed
  if quantization ≠ .f32 ∧ quantization ≠ .u8 then
    throw ("Unsupported quantization: " ++ toString quantization.ctorIdx)
  if estimatedCardinality = 0 then throw estimatedCardinalityIsZero
  match distanceMetric.distanceFunctions with
  | none => throw "Unknown distance metric"
  | some distanceFunctions =>
    return {
      distanceMetric := distanceMetric
      quantization := quantization
      numDimensions := numDimensions
      nProbe := nProbe.toUInt32
      seed := seed
      distanceFunctions := distanceFunctions }

/-- `GetEffectiveNProbe`; `pdxearchNProbe` is the runtime setting. -/
def IndexSettings.getEffectiveNProbe (settings : IndexSettings)
    (pdxearchNProbe : Option OptionValue) : Nat :=
  match pdxearchNProbe with
  | some (.integer value) => if 0 ≤ value.toInt then value.toInt.toNat else settings.nProbe.toNat
  | _ => settings.nProbe.toNat

/-! ## What has been verified is taken as it was written -/

/-- An option as the statement writes it. -/
def CaseInsensitiveMap.Writes {A : Type} (options : CaseInsensitiveMap OptionValue) (key : String)
    (denotes : OptionValue → Option A) (default value : A) : Prop :=
  (∃ written, options.Maps key written ∧ denotes written = some value) ∨
    (∀ written, ¬ options.Maps key written) ∧ value = default

/-- The name of an entry of a map. -/
def OptionValue.name? {A : Type} (allowed : CaseInsensitiveMap A) : OptionValue → Option A
  | .varchar name => allowed.find name
  | _ => none

def OptionValue.int32? : OptionValue → Option Int32
  | .integer value => some value
  | _ => none

/-- What a statement that was planned is like. -/
theorem createPlan_eq_ok {options : CaseInsensitiveMap OptionValue} {keys : List LogicalType}
    {estimatedCardinality numDimensions : Nat}
    (h : createPlan options keys estimatedCardinality = .ok numDimensions) :
    (∀ entry ∈ options.entries, verifyOption entry.1 entry.2 = .ok ()) ∧
      verifyKey keys = .ok numDimensions ∧ estimatedCardinality ≠ 0 := by
  unfold createPlan at h
  cases hoptions : options.entries.forM fun entry => verifyOption entry.1 entry.2 with
  | error e =>
    rw [hoptions] at h
    cases h
  | ok u =>
    cases hkey : verifyKey keys with
    | error e =>
      rw [hoptions, hkey] at h
      cases h
    | ok n =>
      rw [hoptions, hkey] at h
      by_cases hzero : estimatedCardinality = 0
      · rw [hzero] at h
        cases h
      · refine ⟨forM_eq_ok hoptions, ?_, hzero⟩
        simpa [bind, Except.bind, pure, Except.pure, hzero] using h

section Verified

variable {options : CaseInsensitiveMap OptionValue}

/-- A name that has been verified is in the map. -/
theorem exists_of_verifyName {A : Type} {option : String} {allowed : CaseInsensitiveMap A}
    {value : OptionValue} (h : verifyName option allowed value = .ok ()) :
    ∃ name a, value = .varchar name ∧ allowed.find name = some a := by
  cases value with
  | varchar name =>
    rw [verifyName] at h
    split_ifs at h with hsome
    obtain ⟨a, ha⟩ := Option.isSome_iff_exists.mp hsome
    exact ⟨name, a, rfl, ha⟩
  | integer value => cases h
  | other text => cases h

/-- An option with a name is set to what the name stands for. -/
theorem writes_nameOr {A : Type} (key : String) {allowed : CaseInsensitiveMap A}
    (h : ∀ value, options.Maps key value → verifyName key allowed value = .ok ()) (default : A) :
    options.Writes key (OptionValue.name? allowed) default
      (nameOr allowed (options.find key) default) := by
  cases hfind : options.find key with
  | none => exact Or.inr ⟨(options.find_eq_none_iff key).mp hfind, rfl⟩
  | some value =>
    have hmaps := (options.find_eq_some_iff key value).mp hfind
    obtain ⟨name, a, rfl, ha⟩ := exists_of_verifyName (h value hmaps)
    refine Or.inl ⟨_, hmaps, ?_⟩
    have hname : nameOr allowed (some (.varchar name)) default = a := by
      simp [nameOr, OptionValue.getString, ha]
    rw [hname]
    exact ha

/-- An option with a number is set to the number. -/
theorem exists_writes_int32 (key : String) (cast : String → Except String Int32)
    (h : ∀ value, options.Maps key value → ∃ i, value = .integer i) (default : Int32) :
    ∃ i, optionOr (options.find key) (OptionValue.getInt32 cast) default = .ok i ∧
      options.Writes key OptionValue.int32? default i := by
  cases hfind : options.find key with
  | none => exact ⟨default, rfl, Or.inr ⟨(options.find_eq_none_iff key).mp hfind, rfl⟩⟩
  | some value =>
    have hmaps := (options.find_eq_some_iff key value).mp hfind
    obtain ⟨i, rfl⟩ := h value hmaps
    exact ⟨i, rfl, Or.inl ⟨_, hmaps, rfl⟩⟩

theorem verifyOption_metric {key : String} (h : ciEquals key "metric") (value : OptionValue) :
    verifyOption key value = verifyName "metric" distanceMetricMap value := if_pos h

theorem verifyOption_quantization {key : String} (h : ciEquals key "quantization")
    (value : OptionValue) :
    verifyOption key value = verifyName "quantization" quantizationMap value := by
  simp only [verifyOption, ciEquals_congr h]
  rfl

theorem exists_of_verifyOption_nProbe {key : String} (h : ciEquals key "n_probe")
    {value : OptionValue} (hok : verifyOption key value = .ok ()) :
    ∃ i, value = .integer i ∧ 0 ≤ i.toInt := by
  simp only [verifyOption, ciEquals_congr h] at hok
  rw [if_neg (by decide), if_neg (by decide), if_pos (by decide)] at hok
  cases value with
  | integer i =>
    refine ⟨i, rfl, not_lt.mp fun hlt => ?_⟩
    dsimp only at hok
    rw [if_pos hlt] at hok
    cases hok
  | varchar value => cases hok
  | other text => cases hok

theorem exists_of_verifyOption_seed {key : String} (h : ciEquals key "seed")
    {value : OptionValue} (hok : verifyOption key value = .ok ()) : ∃ i, value = .integer i := by
  simp only [verifyOption, ciEquals_congr h] at hok
  rw [if_neg (by decide), if_neg (by decide), if_neg (by decide), if_pos (by decide)] at hok
  cases value with
  | integer i => exact ⟨i, rfl⟩
  | varchar value => cases hok
  | other text => cases hok

/-- What a name is set to is the default or in the map. -/
theorem nameOr_mem {A : Type} (allowed : CaseInsensitiveMap A) (option : Option OptionValue)
    (default : A) : nameOr allowed option default ∈ default :: allowed.entries.map Prod.snd := by
  rw [nameOr]
  cases h : option.bind fun value => allowed.find value.getString with
  | none => exact List.mem_cons_self
  | some a =>
    obtain ⟨value, -, hfind⟩ := Option.bind_eq_some_iff.mp h
    obtain ⟨entry, hentry, -, rfl⟩ := (allowed.find_eq_some_iff _ _).mp hfind
    exact List.mem_cons_of_mem _ (List.mem_map_of_mem hentry)

theorem toNat_toUInt32 {i : Int32} (h : 0 ≤ i.toInt) : (i.toUInt32.toNat : Int) = i.toInt := by
  have hcases := BitVec.toInt_eq_toNat_cond i.toBitVec
  have hlt := i.toBitVec.isLt
  change 0 ≤ i.toBitVec.toInt at h
  change (i.toBitVec.toNat : Int) = i.toBitVec.toInt
  split at hcases <;> omega

theorem le_pdxMaxDims_of_verifyKey {keys : List LogicalType} {numDimensions : Nat}
    (h : verifyKey keys = .ok numDimensions) : numDimensions ≤ pdxMaxDims := by
  unfold verifyKey at h
  split at h
  · split_ifs at h with hlt
    rw [← Except.ok.inj h]
    exact not_lt.mp hlt
  · cases h
  · cases h
  · cases h

/-- The constructor takes the options of a statement that was planned as they were written, in
whatever case and order, and else their defaults; and the `n_probe` of a search is that of the
setting, if it is set to one, or of the index. -/
theorem new_of_createPlan {keys : List LogicalType} {estimatedCardinality numDimensions : Nat}
    (h : createPlan options keys estimatedCardinality = .ok numDimensions)
    (cast : String → Except String Int32) (randomSeed : Int32) :
    ∃ (settings : IndexSettings) (nProbe : Int32),
      PDXearchIndex.new cast randomSeed .none numDimensions options estimatedCardinality =
        .ok settings ∧
      options.Writes "metric" (OptionValue.name? distanceMetricMap) .l2sq settings.distanceMetric ∧
      options.Writes "quantization" (OptionValue.name? quantizationMap) .u8 settings.quantization ∧
      options.Writes "n_probe" OptionValue.int32? defaultNProbe nProbe ∧
      options.Writes "seed" OptionValue.int32? randomSeed settings.seed ∧
      settings.distanceFunctions ∈ settings.distanceMetric.distanceFunctions ∧
      settings.numDimensions = numDimensions ∧ numDimensions ≤ pdxMaxDims ∧
      ∀ setting : Option OptionValue, (settings.getEffectiveNProbe setting : Int) =
        (((setting.bind OptionValue.int32?).filter fun i => 0 ≤ i.toInt).getD nProbe).toInt := by
  obtain ⟨hoptions, hkey, hcardinality⟩ := createPlan_eq_ok h
  have hverified : ∀ {key value}, options.Maps key value →
      ∃ written, ciEquals written key ∧ verifyOption written value = .ok () := by
    rintro key value ⟨entry, hentry, hwritten, rfl⟩
    exact ⟨entry.1, hwritten, hoptions entry hentry⟩
  have hmetric := writes_nameOr "metric" (fun value hmaps => by
    obtain ⟨written, hwritten, hok⟩ := hverified hmaps
    rwa [verifyOption_metric hwritten] at hok) DistanceMetric.l2sq
  have hquantization := writes_nameOr "quantization" (fun value hmaps => by
    obtain ⟨written, hwritten, hok⟩ := hverified hmaps
    rwa [verifyOption_quantization hwritten] at hok) QuantizationType.u8
  have hnProbes : ∀ value, options.Maps "n_probe" value →
      ∃ i, value = .integer i ∧ 0 ≤ i.toInt := by
    intro value hmaps
    obtain ⟨written, hwritten, hok⟩ := hverified hmaps
    exact exists_of_verifyOption_nProbe hwritten hok
  obtain ⟨nProbe, hnProbe, hwritesNProbe⟩ := exists_writes_int32 "n_probe" cast
    (fun value hmaps => (hnProbes value hmaps).imp fun _ => And.left) defaultNProbe
  obtain ⟨seed, hseed, hwritesSeed⟩ := exists_writes_int32 "seed" cast (fun value hmaps => by
    obtain ⟨written, hwritten, hok⟩ := hverified hmaps
    exact exists_of_verifyOption_seed hwritten hok) randomSeed
  have hnonneg : 0 ≤ nProbe.toInt := by
    rcases hwritesNProbe with ⟨value, hmaps, hvalue⟩ | ⟨-, rfl⟩
    · obtain ⟨i, rfl, hi⟩ := hnProbes value hmaps
      rwa [← Option.some.inj hvalue]
    · decide
  have hmetrics := nameOr_mem distanceMetricMap (options.find "metric") .l2sq
  have hquantizations := nameOr_mem quantizationMap (options.find "quantization") .u8
  generalize hm : nameOr distanceMetricMap (options.find "metric") .l2sq = metric
    at hmetric hmetrics
  generalize hq : nameOr quantizationMap (options.find "quantization") .u8 = quantization
    at hquantization hquantizations
  obtain ⟨names, hnames⟩ : ∃ names, metric.distanceFunctions = some names := by
    cases metric with
    | l2sq => exact ⟨_, rfl⟩
    | cosine => exact ⟨_, rfl⟩
    | ip => exact absurd hmetrics (by decide)
  have hsupported : ¬ (quantization ≠ .f32 ∧ quantization ≠ .u8) := by
    cases quantization with
    | f32 => decide
    | u8 => decide
    | f16 => exact absurd hquantizations (by decide)
    | bf => exact absurd hquantizations (by decide)
  refine ⟨⟨metric, quantization, numDimensions, nProbe.toUInt32, seed, names⟩, nProbe, ?_, hmetric,
    hquantization, hwritesNProbe, hwritesSeed, hnames, rfl, le_pdxMaxDims_of_verifyKey hkey,
    fun setting => ?_⟩
  · simp only [PDXearchIndex.new, hm, hq, hnProbe, hseed, hnames]
    rw [if_neg (by decide)]
    simp only [bind, Except.bind]
    rw [if_neg hsupported, if_neg hcardinality]
    rfl
  · have hindex := toNat_toUInt32 hnonneg
    rcases setting with _ | ⟨value⟩ | ⟨i⟩ | ⟨text⟩
    · exact hindex
    · exact hindex
    · by_cases hi : 0 ≤ i.toInt
      · simp only [IndexSettings.getEffectiveNProbe, if_pos hi, Int.toNat_of_nonneg hi, Option.bind,
          OptionValue.int32?, Option.filter, decide_eq_true hi, if_true, Option.getD]
      · simp only [IndexSettings.getEffectiveNProbe, if_neg hi, hindex, Option.bind,
          OptionValue.int32?, Option.filter, decide_eq_false hi, Option.getD]
        rfl
    · exact hindex

/-- `WITH (N_PROBE = 10, Metric = 'COSINE')` on a `FLOAT[8]`. -/
def cosineOptions : CaseInsensitiveMap OptionValue where
  entries := [("N_PROBE", .integer 10), ("Metric", .varchar "COSINE")]
  unique := by decide

theorem new_of_createPlan_cosine : createPlan cosineOptions [.array .float 8] 5 = .ok 8 ∧
    ∃ (settings : IndexSettings) (nProbe : Int32),
      PDXearchIndex.new (fun _ => .error "") 0 .none 8 cosineOptions 5 = .ok settings ∧
      cosineOptions.Writes "metric" (OptionValue.name? distanceMetricMap) .l2sq
        settings.distanceMetric ∧
      cosineOptions.Writes "n_probe" OptionValue.int32? defaultNProbe nProbe ∧
      (settings.getEffectiveNProbe none : Int) = nProbe.toInt := by
  have hplan : createPlan cosineOptions [.array .float 8] 5 = .ok 8 := by decide
  obtain ⟨settings, nProbe, hnew, hmetric, -, hnProbe, -, -, -, -, hprobe⟩ :=
    new_of_createPlan hplan (fun _ => .error "") 0
  exact ⟨hplan, settings, nProbe, hnew, hmetric, hnProbe, hprobe none⟩

end Verified

end PDXearch

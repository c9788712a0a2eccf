import Mathlib.Data.Int.Order.Basic
import Mathlib.Tactic.Linarith

/-! The sizes that the log files are rotated by. They are given in MB, multiplied as
`int`, and widened to the unsigned 64 bits that Boost.Log takes only after that. A
product that overflows is undefined; here it wraps, as it does on the machines the
server is built for. -/

namespace KurentoMediaServer.Logging

/-- An `int` where a `uintmax_t` is taken. -/
def toUintmax (x : Int32) : UInt64 := x.toInt64.toUInt64

/-- What the file collector is given. -/
structure FileCollector where
  maxSize : UInt64
  minFreeSpace : UInt64

/-- `init_file_collecting (sink, path, fileSize, fileNumber)`. -/
def initFileCollecting (fileSize fileNumber : Int32) : FileCollector where
  maxSize := toUintmax ((fileSize * fileNumber) * 1024 * 1024)
  minFreeSpace := toUintmax (fileSize * 1024 * 1024)

/-- What the backend of the sink is given. -/
structure FileBackend where
  rotationSize : UInt64
  collector : FileCollector

/-- `kms_init_logging_files (path, fileSize, fileNumber)`. -/
def kmsInitLoggingFiles (fileSize fileNumber : Int32) : FileBackend where
  rotationSize := toUintmax (fileSize * 1024 * 1024)
  collector := initFileCollecting fileSize fileNumber

/-- The sizes are those that were asked for, in bytes. -/
structure SizesExact (fileSize fileNumber : Int32) : Prop where
  rotation_size :
    ((kmsInitLoggingFiles fileSize fileNumber).rotationSize.toNat : ℤ) = fileSize.toInt * 2 ^ 20
  min_free_space : ((kmsInitLoggingFiles fileSize fileNumber).collector.minFreeSpace.toNat : ℤ) =
    fileSize.toInt * 2 ^ 20
  max_size : ((kmsInitLoggingFiles fileSize fileNumber).collector.maxSize.toNat : ℤ) =
    fileSize.toInt * fileNumber.toInt * 2 ^ 20

/-- The factors of the products that are computed. -/
def factors (fileSize fileNumber : Int32) : List (Int32 × Int32) :=
  [(fileSize, 1024), (fileSize * 1024, 1024), (fileSize, fileNumber),
    (fileSize * fileNumber, 1024), (fileSize * fileNumber * 1024, 1024)]

def NoOverflow (fileSize fileNumber : Int32) : Prop :=
  ∀ p ∈ factors fileSize fileNumber, (p.1 * p.2).toInt = p.1.toInt * p.2.toInt

/-! ### Products -/

theorem toInt_mul_of_lt {a b : Int32} (h0 : 0 ≤ a.toInt * b.toInt)
    (h : a.toInt * b.toInt < 2 ^ 31) : (a * b).toInt = a.toInt * b.toInt := by
  rw [Int32.toInt_mul, Int.bmod]
  omega

theorem toNat_toUintmax (x : Int32) : ((toUintmax x).toNat : ℤ) =
    if 0 ≤ x.toInt then x.toInt else 2 ^ 64 + x.toInt := by
  have hlt := Int32.toInt_lt x
  have hle := Int32.le_toInt x
  have hmax := x.toInt64.toUInt64.toNat_lt
  have hcond := BitVec.toInt_eq_toNat_cond x.toInt64.toBitVec
  rw [Int64.toInt_toBitVec, Int32.toInt_toInt64, Int64.toNat_toBitVec] at hcond
  show ((x.toInt64.toUInt64).toNat : ℤ) = _
  split_ifs at hcond ⊢ <;> omega

/-- Below zero the widened value is larger than any size, so a size that is right has
not been computed by a product that wrapped. -/
theorem toInt_of_toUintmax {x : Int32} {m : ℤ} (h : ((toUintmax x).toNat : ℤ) = m)
    (hm : m < 2 ^ 63) : x.toInt = m := by
  have hle := Int32.le_toInt x
  rw [toNat_toUintmax] at h
  split_ifs at h <;> omega

theorem toNat_toUintmax_of_nonneg {x : Int32} (h : 0 ≤ x.toInt) :
    ((toUintmax x).toNat : ℤ) = x.toInt := by
  rw [toNat_toUintmax, if_pos h]

section Sizes
variable {fileSize fileNumber : Int32}

theorem toInt_1024 : (1024 : Int32).toInt = 1024 := rfl

theorem toInt_bytes {x : Int32} (h0 : 0 ≤ x.toInt) (h : x.toInt < 2048) :
    (x * 1024).toInt = x.toInt * 1024 ∧ (x * 1024 * 1024).toInt = x.toInt * 2 ^ 20 := by
  have hk : (x * 1024).toInt = x.toInt * 1024 := by
    apply toInt_mul_of_lt <;> rw [toInt_1024] <;> omega
  have hm : (x * 1024 * 1024).toInt = (x * 1024).toInt * 1024 := by
    apply toInt_mul_of_lt <;> rw [hk, toInt_1024] <;> omega
  refine ⟨hk, ?_⟩
  rw [hm, hk]
  omega

/-- All the sizes are below 2 GB when that of all files together is. -/
theorem fileSize_lt (hs : 0 < fileSize.toInt) (hn : 0 < fileNumber.toInt)
    (h : fileSize.toInt * fileNumber.toInt < 2048) : fileSize.toInt < 2048 := by
  have hle : fileSize.toInt * 1 ≤ fileSize.toInt * fileNumber.toInt :=
    Int.mul_le_mul_of_nonneg_left (by omega) (by omega)
  omega

theorem toInt_mul_sizes (hs : 0 < fileSize.toInt) (hn : 0 < fileNumber.toInt)
    (h : fileSize.toInt * fileNumber.toInt < 2048) :
    (fileSize * fileNumber).toInt = fileSize.toInt * fileNumber.toInt :=
  toInt_mul_of_lt (Int.mul_nonneg hs.le hn.le) (by omega)

theorem sizesExact_of_lt (hs : 0 < fileSize.toInt) (hn : 0 < fileNumber.toInt)
    (h : fileSize.toInt * fileNumber.toInt < 2048) : SizesExact fileSize fileNumber := by
  have hmul := toInt_mul_sizes hs hn h
  have hpos := Int.mul_nonneg hs.le hn.le
  obtain ⟨-, hfile⟩ := toInt_bytes hs.le (fileSize_lt hs hn h)
  obtain ⟨-, htotal⟩ := toInt_bytes (x := fileSize * fileNumber) (by omega) (by omega)
  rw [hmul] at htotal
  have hrotation : ((toUintmax (fileSize * 1024 * 1024)).toNat : ℤ) = fileSize.toInt * 2 ^ 20 := by
    rw [toNat_toUintmax_of_nonneg (by omega), hfile]
  have hmax : ((toUintmax (fileSize * fileNumber * 1024 * 1024)).toNat : ℤ) =
      fileSize.toInt * fileNumber.toInt * 2 ^ 20 := by
    rw [toNat_toUintmax_of_nonneg (by omega), htotal]
  exact ⟨hrotation, hrotation, hmax⟩

theorem noOverflow_of_lt (hs : 0 < fileSize.toInt) (hn : 0 < fileNumber.toInt)
    (h : fileSize.toInt * fileNumber.toInt < 2048) : NoOverflow fileSize fileNumber := by
  have hmul := toInt_mul_sizes hs hn h
  have hpos := Int.mul_nonneg hs.le hn.le
  obtain ⟨hfile, hfile'⟩ := toInt_bytes hs.le (fileSize_lt hs hn h)
  obtain ⟨htotal, htotal'⟩ := toInt_bytes (x := fileSize * fileNumber) (by omega) (by omega)
  simp only [NoOverflow, factors, List.forall_mem_cons, toInt_1024, hfile, hfile', htotal, htotal',
    hmul]
  exact ⟨trivial, by omega, trivial, trivial, by omega, by simp⟩

/-- The sizes are exact, and no product wraps, exactly when all the files together are
smaller than 2 GB. -/
theorem logSizes_iff (hs : 0 < fileSize.toInt) (hn : 0 < fileNumber.toInt) :
    (SizesExact fileSize fileNumber ↔ fileSize.toInt * fileNumber.toInt < 2048) ∧
    (NoOverflow fileSize fileNumber ↔ fileSize.toInt * fileNumber.toInt < 2048) := by
  have hslt := Int32.toInt_lt fileSize
  have hnlt := Int32.toInt_lt fileNumber
  have hbytes := Int32.toInt_lt (fileSize * fileNumber * 1024 * 1024)
  refine ⟨⟨fun h => ?_, sizesExact_of_lt hs hn⟩, fun h => ?_, noOverflow_of_lt hs hn⟩
  · have hfile := toInt_of_toUintmax h.rotation_size (by omega)
    have hfile' := Int32.toInt_lt (fileSize * 1024 * 1024)
    -- now that a single file is small, all of them are not past the 64 bits
    have hbound : fileSize.toInt * fileNumber.toInt ≤ 2047 * 2 ^ 31 := by
      apply Int.mul_le_mul <;> omega
    have htotal := toInt_of_toUintmax h.max_size (by omega)
    omega
  · simp only [NoOverflow, factors, List.forall_mem_cons, toInt_1024] at h
    obtain ⟨-, -, h1, h2, h3, -⟩ := h
    rw [h3, h2, h1] at hbytes
    omega

end Sizes

theorem logSizes_iff_default : SizesExact 100 10 ∧ NoOverflow 100 10 :=
  ⟨(logSizes_iff (by decide) (by decide)).1.mpr (by decide),
    (logSizes_iff (by decide) (by decide)).2.mpr (by decide)⟩

/-- 30 files of 100 MB: the collector is told to keep more than 2^63 bytes. -/
theorem not_sizesExact : ¬ ∀ fileSize fileNumber : Int32, 0 < fileSize.toInt →
    0 < fileNumber.toInt → SizesExact fileSize fileNumber := by
  intro h
  have hmax := (h 100 30 (by decide) (by decide)).max_size
  exact absurd hmax (by decide)

end KurentoMediaServer.Logging

import WineRedRose.Processes.Descriptors

/-!
# The startup information of a new process

The data of a `new_process` request holds object attributes, handles, handles
of jobs and the startup information, carved up by sizes that the client
chooses.  The size of the startup information itself is not compared with what
is left: a short structure is copied by the size that was asked for, and the
lengths in a full one are changed before it is known to be there.  The check of
the security descriptor in the attributes may read behind the data, too.
-/

namespace WineRedRose.Processes

open Library.Reads

open Tokens (memoryOf)

inductive Status where
  | accessViolation
  | invalidSecurityDescr
  | objectNameInvalid
  | invalidParameter
  | found (code : BitVec 32)
deriving DecidableEq

/-- What the server finds when it looks at other things than the request. -/
structure Environment where
  /-- What the checks of the socket, the parent process and its job end with. -/
  refusal : Option Status
  getJobObj : Nat → Option Status
  /-- What the token, the debug object or `create_process` fails with. -/
  createProcess : List UInt8 → Option Status

structure Request where
  handlesSize : Nat
  jobsSize : Nat
  infoSize : Nat
  data : List UInt8
  fits : data.length < 2 ^ 32

/-! ## Object attributes -/

/-- `struct object_attributes`, without the fields that are not read. -/
structure Attributes where
  sdLen : Nat
  nameLen : Nat

/-- `get_req_object_attributes`, with `none` for `empty_attributes`. -/
def getReqObjectAttributes (data : List UInt8) : Outcome Status (Option Attributes) :=
  if data.length = 0 then pure none
  else if data.length < 16 then .failure .accessViolation
  else do
    let sdLen ← read32 data 8
    let nameLen ← read32 data 12
    if data.length - 16 < sdLen ∨ data.length - 16 - sdLen < nameLen then .failure .accessViolation
    else do
      let valid ← if sdLen ≠ 0 then sdIsValid (data.drop 16) sdLen else pure true
      if valid = false then .failure .invalidSecurityDescr
      else if nameLen % 2 ≠ 0 ∨ 65534 ≤ nameLen then .failure .objectNameInvalid
      else pure (some ⟨sdLen, nameLen⟩)

/-- `get_req_data_after_objattr`: the bytes from the pointer on. -/
def getReqDataAfterObjattr (data : List UInt8) : Option Attributes → List UInt8
  | none => []
  | some attr =>
    let size := (16 + attr.sdLen / 2 * 2 + attr.nameLen / 2 * 2 + 3) / 4 * 4 % 2 ^ 32
    data.drop size

/-! ## The request -/

/-- The loop over the job handles, with the number of those left. -/
def findJobs (env : Environment) (jobHandles : List UInt8) : (left i : Nat) → Outcome Status Unit
  | 0, _ => pure ()
  | left + 1, i => do
    let handle ← read32 jobHandles (4 * i)
    match env.getJobObj handle with
    | some status => .failure status
    | none => findJobs env jobHandles left (i + 1)

/-- `new_process` up to the startup information: the handles and what is left. -/
def infoData (env : Environment) (request : Request) : Outcome Status (List UInt8 × List UInt8) :=
  match getReqObjectAttributes request.data with
  | .outside => .outside
  | .failure _ => .failure .invalidParameter
  | .success attr =>
    match env.refusal with
    | some status => .failure status
    | none =>
      let data := getReqDataAfterObjattr request.data attr
      if request.handlesSize % 4 ≠ 0 ∨ data.length < request.handlesSize then
        .failure .invalidParameter
      else
        let jobs := data.drop request.handlesSize
        if request.jobsSize % 4 ≠ 0 ∨ jobs.length < request.jobsSize then .failure .invalidParameter
        else do
          findJobs env jobs (request.jobsSize / 4) 0
          pure (data.take request.handlesSize, jobs.drop request.jobsSize)

/-- `sizeof(startup_info_t)`. -/
def sizeofStartupInfo : Nat := 96

/-- `struct startup_info`, with the data cut into the fields before the
lengths, the lengths and what follows the structure. -/
structure StartupInfo where
  infoSize : Nat
  dataSize : Nat
  fields : List UInt8
  lens : List Nat
  strings : List UInt8
deriving DecidableEq

/-- The uses of `FIXUP_LEN`, with the number of those left. -/
def fixupLens (data : List UInt8) (infoSize : Nat) : (left pos : Nat) → Outcome Status (List Nat)
  | 0, _ => pure []
  | left + 1, pos => do
    let asked ← read32 data (sizeofStartupInfo - 4 * (left + 1))
    let len := min asked ((infoSize + 2 ^ 32 - pos) % 2 ^ 32)
    let lens ← fixupLens data infoSize left ((pos + len) % 2 ^ 32)
    pure (len :: lens)

/-- The startup information, from the data behind the handles. -/
def startupInfo (infoSize : Nat) (data : List UInt8) : Outcome Status StartupInfo :=
  if infoSize < sizeofStartupInfo then do
    let fields ← readBlock data 0 (min infoSize 64)
    let envSize := data.length - min infoSize data.length
    pure { infoSize := sizeofStartupInfo
           dataSize := (sizeofStartupInfo + envSize) % 2 ^ 32
           fields := fields ++ List.replicate (64 - fields.length) 0
           lens := List.replicate 8 0
           strings := data.drop infoSize }
  else do
    let lens ← fixupLens data (min infoSize data.length) 8 sizeofStartupInfo
    pure { infoSize := min infoSize data.length
           dataSize := data.length
           fields := data.take 64
           lens := lens
           strings := data.drop sizeofStartupInfo }

/-- `new_process`: the startup information of the process that it creates. -/
def newProcess (env : Environment) (request : Request) : Outcome Status StartupInfo := do
  let (handles, data) ← infoData env request
  let info ← startupInfo request.infoSize data
  match env.createProcess handles with
  | some status => .failure status
  | none => pure info

/-! ## What is read of the request -/

variable {env : Environment} {request : Request} {block data : List UInt8}
  {offset infoSize pos left : Nat}

theorem read32_inside (inside : offset + 4 ≤ block.length) :
    ∃ value, (read32 block offset : Outcome Status Nat) = .success value :=
  ⟨_, (read32_answers block offset).success inside⟩

theorem read32_beyond (beyond : block.length < offset + 4) :
    (read32 block offset : Outcome Status Nat) = .outside :=
  (read32_answers block offset).outside (Nat.not_le.mpr beyond)

/-- The security descriptor of the attributes, if it is checked, has the SIDs of
its small entries inside of the data. -/
def DescriptorInside (data : List UInt8) : Prop :=
  let sdLen := Tokens.word32 (memoryOf data) 8
  let nameLen := Tokens.word32 (memoryOf data) 12
  16 ≤ data.length → sdLen ≠ 0 → 16 + sdLen + nameLen ≤ data.length →
    ShortInside (data.drop 16) (sdExamined (memoryOf (data.drop 16)) sdLen)

theorem getReqObjectAttributes_outside_iff :
    getReqObjectAttributes data = .outside ↔ ¬ DescriptorInside data := by
  rw [getReqObjectAttributes, DescriptorInside]
  by_cases short : data.length < 16
  · have refused : ¬ 16 ≤ data.length := by omega
    split_ifs <;> simp [refused]
  have sdRead : (read32 data 8 : Outcome Status Nat) = .success _ :=
    (read32_answers data 8).success (by omega)
  have nameRead : (read32 data 12 : Outcome Status Nat) = .success _ :=
    (read32_answers data 12).success (by omega)
  rw [if_neg (by omega), if_neg short, sdRead, success_bind, nameRead, success_bind]
  generalize Tokens.word32 (memoryOf data) 8 = sdLen
  generalize Tokens.word32 (memoryOf data) 12 = nameLen
  by_cases long : data.length - 16 < sdLen ∨ data.length - 16 - sdLen < nameLen
  · rw [if_pos long]
    simp only [reduceCtorEq, false_iff, not_not]
    omega
  rw [if_neg long]
  by_cases empty : sdLen = 0
  · simp only [empty, ne_eq, not_true_eq_false, if_false]
    split_ifs <;> simp
  have room : sdLen ≤ (data.drop 16).length := by
    rw [List.length_drop]
    omega
  have checked : Answers (sdIsValid (data.drop 16) sdLen : Outcome Status Bool) _ _ :=
    sdIsValid_answers room
  have fits : 16 + sdLen + nameLen ≤ data.length := by omega
  rw [if_pos empty]
  by_cases inside : ShortInside (data.drop 16) (sdExamined (memoryOf (data.drop 16)) sdLen)
  · rw [checked.success inside, success_bind]
    simp only [inside, implies_true, not_true_eq_false, iff_false]
    split_ifs <;> simp
  · rw [checked.outside inside, outside_bind]
    simp only [true_iff]
    exact fun safe => inside (safe (Nat.not_lt.mp short) empty fits)

theorem findJobs_inside {i : Nat} (inside : 4 * (i + left) ≤ block.length) :
    findJobs env block left i ≠ .outside := by
  induction left generalizing i with
  | zero => exact nofun
  | succ left ih =>
    obtain ⟨handle, read⟩ := read32_inside (by omega : 4 * i + 4 ≤ block.length)
    rw [findJobs, read, success_bind]
    split
    · exact nofun
    · exact ih (by omega)

theorem getReqDataAfterObjattr_length (data : List UInt8) (attr : Option Attributes) :
    (getReqDataAfterObjattr data attr).length ≤ data.length := by
  cases attr with
  | none => exact Nat.zero_le _
  | some attr => exact (List.drop_sublist _ _).length_le

theorem infoData_outside (beyond : ¬ DescriptorInside request.data) :
    infoData env request = .outside := by
  rw [infoData, getReqObjectAttributes_outside_iff.mpr beyond]

/-- Behind the descriptor, the handler gets to the startup information inside of
the request data. -/
theorem infoData_cases (inside : DescriptorInside request.data) :
    (∃ status, infoData env request = .failure status) ∨
      ∃ carved, infoData env request = .success carved ∧ carved.2.length < 2 ^ 32 := by
  rw [infoData]
  split
  · next read => exact (getReqObjectAttributes_outside_iff.mp read inside).elim
  · exact .inl ⟨_, rfl⟩
  · next attr _ =>
    split
    · exact .inl ⟨_, rfl⟩
    · have short := getReqDataAfterObjattr_length request.data attr
      dsimp only
      split_ifs with _ jobsRefused
      · exact .inl ⟨_, rfl⟩
      · exact .inl ⟨_, rfl⟩
      · cases found : findJobs env ((getReqDataAfterObjattr request.data attr).drop
            request.handlesSize) (request.jobsSize / 4) 0 with
        | outside => exact (findJobs_inside (by omega) found).elim
        | failure status => exact .inl ⟨status, rfl⟩
        | success _ =>
          refine .inr ⟨_, rfl, ?_⟩
          have fits := request.fits
          simp only [List.length_drop]
          omega

/-! ## The lengths -/

/-- Lengths that are all there are cut to what is left behind the structure. -/
theorem fixupLens_fit (full : sizeofStartupInfo ≤ data.length) (few : left ≤ 24)
    (start : pos ≤ infoSize) (fits : infoSize < 2 ^ 32) :
    ∃ lens, fixupLens data infoSize left pos = .success lens ∧ pos + lens.sum ≤ infoSize := by
  rw [sizeofStartupInfo] at full
  induction left generalizing pos with
  | zero => exact ⟨[], rfl, start⟩
  | succ left ih =>
    obtain ⟨asked, read⟩ := @read32_inside data (sizeofStartupInfo - 4 * (left + 1))
      (by rw [sizeofStartupInfo]; omega)
    rw [fixupLens, read, success_bind]
    dsimp only
    have room : (infoSize + 2 ^ 32 - pos) % 2 ^ 32 = infoSize - pos := by omega
    have next : (pos + min asked (infoSize - pos)) % 2 ^ 32 = pos + min asked (infoSize - pos) :=
      Nat.mod_eq_of_lt (by omega)
    obtain ⟨lens, rest, sum⟩ := @ih (pos + min asked (infoSize - pos)) (by omega) (by omega)
    rw [room, next, rest]
    exact ⟨_, rfl, by rw [List.sum_cons]; omega⟩

/-- The last length of a structure that is not all there lies outside. -/
theorem fixupLens_outside (partly : data.length < sizeofStartupInfo) :
    fixupLens data infoSize (left + 1) pos = .outside := by
  induction left generalizing pos with
  | zero =>
    rw [fixupLens, read32_beyond (by rw [sizeofStartupInfo] at *; omega)]
    rfl
  | succ left ih =>
    rw [fixupLens]
    rcases Nat.lt_or_ge data.length (sizeofStartupInfo - 4 * (left + 1 + 1) + 4) with
      beyond | inside
    · rw [read32_beyond beyond]
      rfl
    · obtain ⟨asked, read⟩ := read32_inside inside
      rw [read, success_bind]
      dsimp only
      rw [ih]
      rfl

/-! ## Well-formed startup information -/

/-- The sizes are those of the structure and of the strings behind it. -/
def StartupInfo.WellFormed (info : StartupInfo) : Prop :=
  info.infoSize ≤ info.dataSize ∧ sizeofStartupInfo ≤ info.infoSize ∧
    sizeofStartupInfo + info.lens.sum ≤ info.infoSize

/-- What is left of the data is enough for the size that is asked for, and the
new size of a structure that is filled up does not wrap. -/
def Enough (infoSize : Nat) (data : List UInt8) (creates : Prop) : Prop :=
  if infoSize < sizeofStartupInfo then
    min infoSize 64 ≤ data.length ∧
      (creates → sizeofStartupInfo + (data.length - infoSize) < 2 ^ 32)
  else sizeofStartupInfo ≤ data.length

theorem startupInfo_cases (creates : Prop) (fits : data.length < 2 ^ 32) :
    (startupInfo infoSize data = .outside ∧ ¬ Enough infoSize data creates) ∨
      ∃ info, startupInfo infoSize data = .success info ∧
      ((creates → info.WellFormed) ↔ Enough infoSize data creates) := by
  simp only [startupInfo, Enough, StartupInfo.WellFormed]
  split_ifs with short
  · rcases Nat.lt_or_ge data.length (min infoSize 64) with few | enough
    · rw [readBlock_of_lt (by omega)]
      exact .inl ⟨rfl, by omega⟩
    · rw [readBlock_of_le (by omega)]
      refine .inr ⟨_, rfl, ?_⟩
      have wraps : sizeofStartupInfo ≤
          (sizeofStartupInfo + (data.length - min infoSize data.length)) % 2 ^ 32 ↔
          sizeofStartupInfo + (data.length - infoSize) < 2 ^ 32 := by
        rw [sizeofStartupInfo]
        omega
      simp only [List.sum_replicate, wraps, enough, le_refl, smul_zero, add_zero, and_self,
        and_true, true_and]
  · rcases Nat.lt_or_ge data.length sizeofStartupInfo with few | full
    · rw [fixupLens_outside few]
      exact .inl ⟨rfl, by omega⟩
    · obtain ⟨lens, fixed, sum⟩ := @fixupLens_fit data (min infoSize data.length)
        sizeofStartupInfo 8 full (by omega) (by omega) (by omega)
      rw [fixed]
      exact .inr ⟨_, rfl, fun _ => full, fun _ _ => ⟨min_le_right _ _,
        le_min (Nat.not_lt.mp short) full, sum⟩⟩

/-- No byte outside of the request data is read, and the startup information of
a process that is created is well formed, exactly if the client sends what it
announces. -/
theorem startup_info_well_formed_iff (env : Environment) (request : Request) :
    (newProcess env request ≠ .outside ∧
      ∀ info, newProcess env request = .success info → info.WellFormed) ↔
    DescriptorInside request.data ∧
      ∀ carved, infoData env request = .success carved →
        Enough request.infoSize carved.2 (env.createProcess carved.1 = none) := by
  rw [newProcess]
  by_cases inside : DescriptorInside request.data
  swap
  · rw [infoData_outside inside]
    exact iff_of_false (fun reads => reads.1 rfl) fun both => inside both.1
  rw [and_iff_right inside]
  rcases infoData_cases inside with ⟨status, refused⟩ | ⟨carved, passed, fits⟩
  · rw [refused]
    exact ⟨fun _ => nofun, fun _ => ⟨nofun, nofun⟩⟩
  · simp only [passed, success_bind, Outcome.success.injEq, forall_eq']
    rcases startupInfo_cases (env.createProcess carved.1 = none) fits with
      ⟨outside, few⟩ | ⟨info, built, iff⟩
    · rw [outside]
      exact ⟨fun inside => (inside.1 rfl).elim, fun enough => (few enough).elim⟩
    · rw [built, ← iff, success_bind]
      cases env.createProcess carved.1 <;> simp

/-- Attributes with a descriptor whose last eight bytes are the header of an
entry of size seven. -/
def shortEntryData : List UInt8 :=
  [0, 0, 0, 0] ++ [0, 0, 0, 0] ++ [36, 0, 0, 0] ++ [0, 0, 0, 0] ++
    ([0, 0, 0, 0] ++ [0, 0, 0, 0] ++ [0, 0, 0, 0] ++ [0, 0, 0, 0] ++ [16, 0, 0, 0] ++
    [2, 0, 16, 0, 1, 0, 0, 0] ++ [0, 0, 7, 0, 1, 0, 0, 0])

/-- Nothing is left of the data, and 64 bytes are copied.  The SID of a small
entry is looked for behind the data. -/
theorem short_info_read_outside :
    newProcess ⟨none, fun _ => none, fun _ => none⟩ ⟨0, 0, 64, [], by decide⟩ = .outside ∧
      newProcess ⟨none, fun _ => none, fun _ => none⟩ ⟨0, 0, 0, shortEntryData, by decide⟩ =
        .outside :=
  ⟨rfl, by decide⟩

end WineRedRose.Processes

import Mathlib.Algebra.Order.Ring.Int
import Noda.Lib.Reader
import Noda.Lib.Strconv
import Noda.Pathutil.Root

/-!
# The node `upload.handle`

The node reads each uploaded file through a reader that counts down from `max_size + 1` and writes the content to the
storage.  The storage, `http.DetectContentType` and the resolver of expressions are parameters; the declared size of a
file is absent (zero) or correct.

The limit is missed in two ways.  The count is an `int64`, so the greatest `max_size` leaves nothing to count down and
every file is refused.  And the wrapped reader notes that the count is used up only if the last call gave no error: a
file of one byte too many whose last bytes come together with `io.EOF` is written.  `execute_sizeLimit_iff`: otherwise
the limit is kept.
-/

namespace Noda.Upload

open Reader

/-! ### The reader -/

/-- `limitedReader`. -/
structure LimitedReader (σ : Type) where
  R : σ
  N : Int64
  exceeded : Bool

variable {σ : Type}

def LimitedReader.read (read : ReadFn σ) : ReadFn (LimitedReader σ) := fun l m =>
  if l.N ≤ 0 then ([], some .eof, { l with exceeded := true })
  else
    let m := if l.N.toInt < m then l.N.toInt.toNat else m
    match read l.R m with
    | (bs, err, r) =>
      let N := l.N - Int64.ofNat bs.length
      if N ≤ 0 ∧ err = none then (bs, some .eof, ⟨r, N, true⟩)
      else (bs, err, ⟨r, N, l.exceeded⟩)

/-! ### The node -/

/-- `multipart.FileHeader` and what `Open` and the file it opens will do. -/
structure FileHeader where
  filename : String
  size : Int64
  openErr : Option String
  content : List UInt8
  chunks : List Nat
  ending : Ending
  /-- the declared size is absent or correct -/
  size_eq : size = 0 ∨ size.toInt = content.length

/-- A value of the input. -/
inductive RawField where
  | file (fh : FileHeader)
  | files (fhs : List FileHeader)
  | other (type : String)

/-- The config of the node, as far as the conversions have read it, and what the node gets from its surroundings. -/
structure Node where
  maxSize : Option Int64
  maxFiles : Option Int
  allowedTypes : List String
  field : Option String
  /-- the result of the expression for the path; a value that is not a text is given by its type -/
  path : Except String (Except String String)
  /-- `input` if it is a map -/
  input : Option (String → Option RawField)
  destSvc : Except String (String → List UInt8 → Except String Int)
  detectContentType : List UInt8 → String
  /-- how much more than it needs `append` makes room for -/
  extra : Nat → Nat

inductive UploadError where
  | service (message : String)
  | resolve (message : String)
  | pathType (type : String)
  | input (field message : String)
  | noFiles (field : String)
  | declaredSize (field : String) (i : Nat) (maxSize size : Int64)
  | openFile (message : String)
  | readFile (message : String)
  | tooLarge (field : String) (i : Nat) (maxSize : Int64)
  | fileType (field type : String)
  | storagePath (message : String)
  | write (message : String)
  deriving DecidableEq

namespace UploadError

/-- The field of an `api.ValidationError`. -/
def field : UploadError → Option String
  | .input field _ | .noFiles field | .declaredSize field _ _ _ | .tooLarge field _ _ | .fileType field _ => some field
  | .storagePath _ => some "storage_path"
  | _ => none

def message : UploadError → String
  | .service message => message
  | .resolve message => "upload.handle: resolve path: " ++ message
  | .pathType type => "upload.handle: path must resolve to string, got " ++ type
  | .input _ message => message
  | .noFiles _ => "no files uploaded"
  | .declaredSize _ i maxSize size => "file " ++ toString i ++ " exceeds max size of " ++ toString maxSize.toInt ++
      " bytes (got " ++ toString size.toInt ++ ")"
  | .openFile message => "upload.handle: open file: " ++ message
  | .readFile message => "upload.handle: read file: " ++ message
  | .tooLarge _ i maxSize => "file " ++ toString i ++ " exceeds max size of " ++ toString maxSize.toInt ++ " bytes"
  | .fileType _ type => "file type " ++ type.goQuote ++ " not allowed"
  | .storagePath message => message
  | .write message => "upload.handle: write to storage: " ++ message

/-- The place of the file that is refused for its size. -/
def refusedSize : UploadError → Option Nat
  | .declaredSize _ i _ _ | .tooLarge _ i _ => some i
  | _ => none

end UploadError

structure FileResult where
  path : String
  size : Int
  contentType : String
  filename : String
  deriving DecidableEq

inductive Output where
  | single (result : FileResult)
  | files (results : List FileResult)
  deriving DecidableEq

/-- A call of `WriteStream`, with the place of the file. -/
structure Write where
  index : Nat
  path : String
  content : List UInt8
  deriving DecidableEq

def mimeAllowed (detected : String) (allowed : List String) : Bool :=
  allowed.any fun a =>
    a == detected || a == "*" ||
      (1 < a.length && a.toList.getLast? == some '*' && a.toList.dropLast.isPrefixOf detected.toList)

namespace Node

variable (node : Node)

def maxSizeOrDefault : Int64 := node.maxSize.getD (10 * 1024 * 1024)

def fieldName : String :=
  match node.field with
  | some f => if f ≠ "" then f else "file"
  | none => "file"

def extractFiles (field : String) (maxFiles : Int) : Except String (List FileHeader) :=
  match node.input with
  | none => .error "input is not a map"
  | some input =>
    match input field with
    | none => .error ("field " ++ field.goQuote ++ " not found in input")
    | some (.file fh) => .ok [fh]
    | some (.files fhs) =>
      if maxFiles < fhs.length then
        .error ("too many files: got " ++ toString fhs.length ++ ", max " ++ toString maxFiles)
      else .ok fhs
    | some (.other type) => .error ("field " ++ field.goQuote ++ " is not a file upload (got " ++ type ++ ")")

/-- `io.ReadAll` on the wrapped file.  The fuel is enough for all reads (`readFile_outcome`). -/
def readFile (fh : FileHeader) : List UInt8 × Option Err × LimitedReader Source :=
  let lr : LimitedReader Source := ⟨⟨fh.content, fh.chunks⟩, node.maxSizeOrDefault + 1, false⟩
  (readAll (LimitedReader.read (handOut fh.ending)) node.extra (lr.R.left + 1) lr [] 512).getD ([], none, lr)

/-- The storage path of a file, with its place if there are several. -/
def filePath (storagePath : String) (count i : Nat) : String :=
  if 1 < count then storagePath ++ "_" ++ toString i else storagePath

/-- The body of the loop: the write, if there was one, and the result. -/
def handleFile (writeStream : String → List UInt8 → Except String Int) (storagePath : String) (count i : Nat)
    (fh : FileHeader) : Option Write × Except UploadError FileResult :=
  let maxSize := node.maxSizeOrDefault
  if fh.size > 0 ∧ fh.size > maxSize then (none, .error (.declaredSize node.fieldName i maxSize fh.size))
  else
    match fh.openErr with
    | some err => (none, .error (.openFile err))
    | none =>
      match node.readFile fh with
      | (_, some (.failed err), _) => (none, .error (.readFile err))
      | (content, _, lr) =>
        if lr.exceeded then (none, .error (.tooLarge node.fieldName i maxSize))
        else
          let detectedType := node.detectContentType (content.take 512)
          if node.allowedTypes ≠ [] ∧ mimeAllowed detectedType node.allowedTypes = false then
            (none, .error (.fileType node.fieldName detectedType))
          else
            match Pathutil.validateRelative storagePath with
            | .error err => (none, .error (.storagePath err))
            | .ok () =>
              let path := filePath storagePath count i
              (some ⟨i, path, content⟩,
                match writeStream path content with
                | .error err => .error (.write err)
                | .ok written => .ok ⟨path, written, detectedType, fh.filename⟩)

def handleFiles (writeStream : String → List UInt8 → Except String Int) (storagePath : String) (count : Nat) :
    Nat → List FileHeader → List Write × Except UploadError (List FileResult)
  | _, [] => ([], .ok [])
  | i, fh :: fhs =>
    match node.handleFile writeStream storagePath count i fh with
    | (w, .error err) => (w.toList, .error err)
    | (w, .ok result) =>
      match handleFiles writeStream storagePath count (i + 1) fhs with
      | (ws, .error err) => (w.toList ++ ws, .error err)
      | (ws, .ok results) => (w.toList ++ ws, .ok (result :: results))

/-- `Execute`: the writes and the result. -/
def execute : List Write × Except UploadError Output :=
  match node.destSvc with
  | .error err => ([], .error (.service err))
  | .ok writeStream =>
    match node.path with
    | .error err => ([], .error (.resolve err))
    | .ok (.error type) => ([], .error (.pathType type))
    | .ok (.ok storagePath) =>
      match node.extractFiles node.fieldName (node.maxFiles.getD 1) with
      | .error err => ([], .error (.input node.fieldName err))
      | .ok [] => ([], .error (.noFiles node.fieldName))
      | .ok files =>
        match node.handleFiles writeStream storagePath files.length 0 files with
        | (ws, .error err) => (ws, .error err)
        | (ws, .ok [result]) => (ws, .ok (.single result))
        | (ws, .ok results) => (ws, .ok (.files results))

end Node

/-! ### What a reading yields -/

/-- The content that gets through a limit: no more than `maxSize` bytes, or one more that come together with
`io.EOF`. -/
def GetsThrough (maxSize : Int) (content : List UInt8) (ending : Ending) : Prop :=
  content.length ≤ maxSize ∨ content.length = maxSize + 1 ∧ ending = .together

/-- How a reading through the limit may end. -/
inductive Outcome (maxSize : Int) (content : List UInt8) (ending : Ending) :
    List UInt8 → Option Err → LimitedReader Source → Prop where
  | all (lr : LimitedReader Source) (he : lr.exceeded = false) (h : GetsThrough maxSize content ending)
      (hend : ∀ msg, ending ≠ .failure msg) : Outcome maxSize content ending content none lr
  | exceeded (bs : List UInt8) (lr : LimitedReader Source) (he : lr.exceeded = true)
      (h : ¬ GetsThrough maxSize content ending) : Outcome maxSize content ending bs none lr
  | failed (bs : List UInt8) (lr : LimitedReader Source) (msg : String) (h : ending = .failure msg) :
      Outcome maxSize content ending bs (some (.failed msg)) lr

/-- Before a `Read`: what is read and what is left are the content, and the count is what is missing from
`maxSize + 1`. -/
structure Reading (maxSize : Int) (content : List UInt8) (lr : LimitedReader Source) (buf : List UInt8) : Prop where
  split : buf ++ lr.R.rest = content
  exceeded : lr.exceeded = false
  pos : 0 < lr.N.toInt
  count : lr.N.toInt + buf.length = maxSize + 1

private theorem toInt_sub_length {N : Int64} {n : Nat} (hN : 0 < N.toInt) (hn : n ≤ N.toInt) :
    (N - Int64.ofNat n).toInt = N.toInt - n := by
  have hlt := Int64.toInt_lt N
  rw [Int64.toInt_sub, Int64.toInt_ofNat_of_lt (by omega)]
  exact Int.bmod_eq_of_le (by omega) (by omega)

/-- A call of the wrapped reader is one of the source for at most what is left of the count. -/
private theorem limited_read_eq (ending : Ending) (lr : LimitedReader Source) {m : Nat} (hm : 0 < m)
    (hpos : 0 < lr.N.toInt) :
    ∃ bs err r, (∃ m', Reads ending lr.R m' bs err r) ∧ bs.length ≤ m ∧ (bs.length : Int) ≤ lr.N.toInt ∧
      LimitedReader.read (handOut ending) lr m =
        if lr.N - Int64.ofNat bs.length ≤ 0 ∧ err = none then (bs, some .eof, ⟨r, lr.N - Int64.ofNat bs.length, true⟩)
        else (bs, err, ⟨r, lr.N - Int64.ofNat bs.length, lr.exceeded⟩) := by
  have hN : ¬ lr.N ≤ 0 := by
    rw [Int64.le_iff_toInt_le]
    exact not_le.2 hpos
  obtain ⟨m', hm'⟩ : ∃ m', m' = if lr.N.toInt < m then lr.N.toInt.toNat else m := ⟨_, rfl⟩
  have hroom : 0 < m' ∧ m' ≤ m ∧ m' ≤ lr.N.toInt := by
    rw [hm']
    split_ifs with hless
    · omega
    · omega
  rcases hr : handOut ending lr.R m' with ⟨bs, err, r⟩
  have hreads : Reads ending lr.R m' bs err r := by
    have hcall := handOut_reads ending lr.R hroom.1
    rw [hr] at hcall
    exact hcall
  have hlength : bs.length ≤ m' := hreads.length_le
  refine ⟨bs, err, r, ⟨m', hreads⟩, Nat.le_trans hlength hroom.2.1, by omega, ?_⟩
  unfold LimitedReader.read
  rw [if_neg hN]
  simp only [← hm', hr]

private theorem limited_read {maxSize : Int} {content : List UInt8} (ending : Ending) (lr : LimitedReader Source)
    (buf : List UInt8) (m : Nat) (hm : 0 < m) (h : Reading maxSize content lr buf) :
    Establishes (Reading maxSize content) (Outcome maxSize content ending) lr.R.left (fun lr => lr.R.left) buf
      (LimitedReader.read (handOut ending) lr m) ∧ (LimitedReader.read (handOut ending) lr m).1.length ≤ m := by
  have hpos := h.pos
  obtain ⟨bs, err, r, ⟨m', hreads⟩, hlength, hroom, hread⟩ := limited_read_eq ending lr hm hpos
  have hsub := toInt_sub_length hpos hroom
  have hsplit : buf ++ bs ++ r.rest = content := by rw [List.append_assoc, hreads.split, h.split]
  have hcount : content.length = buf.length + bs.length + r.rest.length := by
    rw [← hsplit, List.length_append, List.length_append]
  have hcounted := h.count
  refine ⟨?_, ?_⟩
  · rw [hread]
    split_ifs with hover
    · -- the count is used up and the call gave no error
      obtain ⟨hless, rfl⟩ := hover
      have hzero : (lr.N - Int64.ofNat bs.length).toInt ≤ 0 := Int64.le_iff_toInt_le.1 hless
      refine .exceeded _ _ rfl ?_
      rintro (hle | ⟨heq, htogether⟩)
      · omega
      · have hrest : r.rest = [] := List.length_eq_zero_iff.1 (by omega)
        have hnonempty : lr.R.rest ≠ [] := by
          rw [← hreads.split, hrest, List.append_nil]
          exact List.ne_nil_of_length_pos (by omega)
        exact hreads.more rfl hnonempty hrest htogether
    · match err, hreads, hover with
      | none, hreads, hover =>
        have hmore : 0 < (lr.N - Int64.ofNat bs.length).toInt := by
          have hnot : ¬ lr.N - Int64.ofNat bs.length ≤ 0 := fun hle => hover ⟨hle, rfl⟩
          rw [Int64.le_iff_toInt_le] at hnot
          exact not_le.1 hnot
        refine ⟨⟨hsplit, h.exceeded, hmore, ?_⟩, hreads.progress rfl⟩
        show (lr.N - Int64.ofNat bs.length).toInt + ((buf ++ bs).length : Int) = maxSize + 1
        rw [hsub, List.length_append]
        omega
      | some .eof, hreads, hover =>
        obtain ⟨hrest, hlast, hend⟩ := hreads.eof rfl
        rw [hrest, List.append_nil] at hsplit
        show Outcome maxSize content ending (buf ++ bs) none _
        rw [hsplit]
        refine .all _ h.exceeded ?_ hend
        by_cases hle : (content.length : Int) ≤ maxSize
        · exact .inl hle
        · -- only the last call can bring the byte over the limit
          have hnonempty : lr.R.rest ≠ [] := by
            rw [← hreads.split, hrest, List.append_nil]
            rw [hrest, List.length_nil] at hcount
            exact List.ne_nil_of_length_pos (by omega)
          rw [hrest, List.length_nil] at hcount
          exact .inr ⟨by omega, hlast.resolve_left hnonempty⟩
      | some (.failed msg), hreads, hover => exact .failed _ _ msg (hreads.failed msg rfl)
  · rw [hread]
    split_ifs
    · exact hlength
    · exact hlength

namespace Node

variable (node : Node)

/-- The limit, as a number that is not wrapped. -/
def limit : Int := node.maxSizeOrDefault.toInt

private theorem limit_lt (h : node.maxSizeOrDefault ≠ Int64.maxValue) : node.limit < 2 ^ 63 - 1 := by
  have hlt := Int64.toInt_lt node.maxSizeOrDefault
  have hne : node.limit ≠ 2 ^ 63 - 1 := fun heq => h (Int64.toInt_inj.1 heq)
  unfold limit at hne ⊢
  omega

/-- Unless the count wraps or is used up from the start, a reading ends as it should, or with the byte too many. -/
theorem readFile_outcome (fh : FileHeader) (h : 0 ≤ node.limit) (hmax : node.maxSizeOrDefault ≠ Int64.maxValue) :
    Outcome node.limit fh.content fh.ending (node.readFile fh).1 (node.readFile fh).2.1 (node.readFile fh).2.2 := by
  have hN : (node.maxSizeOrDefault + 1).toInt = node.limit + 1 := by
    have hlt := node.limit_lt hmax
    rw [Int64.toInt_add]
    exact Int.bmod_eq_of_le (by unfold limit at h; simp; omega) (by unfold limit at hlt; simp; omega)
  have hstart : Reading node.limit fh.content ⟨⟨fh.content, fh.chunks⟩, node.maxSizeOrDefault + 1, false⟩ [] :=
    ⟨rfl, rfl, by rw [hN]; omega, by rw [hN]; simp⟩
  obtain ⟨content, err, lr, hread, houtcome⟩ :=
    readAll_rule (limited_read fh.ending) node.extra hstart (show 0 < 512 by decide) (Nat.lt_succ_self _)
  unfold readFile
  simp only
  rw [hread]
  exact houtcome

/-- A count that is not positive refuses every file. -/
private theorem readFile_exceeded (fh : FileHeader) (h : node.maxSizeOrDefault + 1 ≤ 0) :
    (node.readFile fh).2.1 = none ∧ (node.readFile fh).2.2.exceeded = true := by
  unfold readFile
  simp only [readAll, LimitedReader.read, if_pos h]
  exact ⟨rfl, rfl⟩

/-- The file is read as it should be: the content gets through the limit and the reader does not fail. -/
def Accepts (fh : FileHeader) : Prop :=
  node.maxSizeOrDefault ≠ Int64.maxValue ∧ 0 ≤ node.limit ∧ GetsThrough node.limit fh.content fh.ending ∧
    ∀ msg, fh.ending ≠ .failure msg

/-- The ways a reading may end. -/
private theorem readFile_cases (fh : FileHeader) :
    (∃ lr, node.readFile fh = (fh.content, none, lr) ∧ lr.exceeded = false ∧ node.Accepts fh) ∨
    (∃ bs lr, node.readFile fh = (bs, none, lr) ∧ lr.exceeded = true ∧ ¬ node.Accepts fh ∧
      (node.maxSizeOrDefault = Int64.maxValue ∨ node.limit < fh.content.length)) ∨
    (∃ bs msg lr, node.readFile fh = (bs, some (.failed msg), lr) ∧ node.maxSizeOrDefault ≠ Int64.maxValue ∧
      fh.ending = .failure msg) := by
  by_cases hmax : node.maxSizeOrDefault = Int64.maxValue
  · obtain ⟨herr, hexc⟩ := node.readFile_exceeded fh (by rw [hmax]; decide)
    exact .inr (.inl ⟨_, _, Prod.ext rfl (Prod.ext herr rfl), hexc, fun h => h.1 hmax, .inl hmax⟩)
  by_cases hneg : 0 ≤ node.limit
  · have houtcome := node.readFile_outcome fh hneg hmax
    rcases hread : node.readFile fh with ⟨bs, err, lr⟩
    rw [hread] at houtcome
    cases houtcome with
    | all lr he h hend => exact .inl ⟨lr, rfl, he, hmax, hneg, h, hend⟩
    | exceeded bs lr he h =>
      refine .inr (.inl ⟨bs, lr, rfl, he, fun hacc => h hacc.2.2.1, .inr ?_⟩)
      exact not_le.1 fun hle => h (.inl hle)
    | failed bs lr msg h => exact .inr (.inr ⟨bs, msg, lr, rfl, hmax, h⟩)
  · -- a negative limit leaves nothing to count down
    have hle : node.maxSizeOrDefault + 1 ≤ 0 := by
      have hlt := node.limit_lt hmax
      have hge := Int64.le_toInt node.maxSizeOrDefault
      unfold limit at hlt hneg
      rw [Int64.le_iff_toInt_le, Int64.toInt_add, Int.bmod_eq_of_le (by simp; omega) (by simp; omega)]
      simp
      omega
    obtain ⟨herr, hexc⟩ := node.readFile_exceeded fh hle
    refine .inr (.inl ⟨_, _, Prod.ext rfl (Prod.ext herr rfl), hexc, fun h => hneg h.2.1, .inr ?_⟩)
    exact lt_of_lt_of_le (not_le.1 hneg) (Int.natCast_nonneg _)

/-! ### One file -/

def Storable (storagePath : String) (content : List UInt8) : Prop :=
  (node.allowedTypes = [] ∨ mimeAllowed (node.detectContentType (content.take 512)) node.allowedTypes = true) ∧
    Pathutil.validateRelative storagePath = .ok ()

/-- The files for which the limit is missed. -/
def Missed (storagePath : String) (fh : FileHeader) : Prop :=
  fh.openErr = none ∧
    if node.maxSizeOrDefault = Int64.maxValue then fh.content.length ≤ node.limit
    else 0 ≤ node.limit ∧ fh.content.length = node.limit + 1 ∧ fh.size = 0 ∧ fh.ending = .together ∧
      node.Storable storagePath fh.content

/-- The limit is kept for the file at place `i`: what is written is its content, which is no larger than allowed, and it
is refused for its size only if it is too large. -/
structure Keeps (i : Nat) (fh : FileHeader) (r : Option Write × Except UploadError FileResult) : Prop where
  written : ∀ w ∈ r.1, w.content = fh.content ∧ fh.content.length ≤ node.limit
  refused : ∀ err, r.2 = .error err → err.refusedSize = some i → node.limit < fh.content.length

/-- The loop goes on after the file. -/
def Passes (writeStream : String → List UInt8 → Except String Int) (storagePath : String) (count i : Nat)
    (fh : FileHeader) : Prop :=
  fh.openErr = none ∧ fh.content.length ≤ node.limit ∧ (∀ msg, fh.ending ≠ .failure msg) ∧
    node.Storable storagePath fh.content ∧
    ∃ written, writeStream (filePath storagePath count i) fh.content = .ok written

section

variable {node} {writeStream : String → List UInt8 → Except String Int} {storagePath : String} {count i : Nat}
  {fh : FileHeader}

/-- What the body of the loop may do with a file. -/
inductive FileCase (node : Node) (writeStream : String → List UInt8 → Except String Int) (storagePath : String)
    (count i : Nat) (fh : FileHeader) : Option Write × Except UploadError FileResult → Prop where
  | refused (err : UploadError) (he : err.refusedSize = some i)
      (h : node.Missed storagePath fh ↔ fh.content.length ≤ node.limit) :
      FileCase node writeStream storagePath count i fh (none, .error err)
  | failed (err : UploadError) (he : err.refusedSize = none) (hm : ¬ node.Missed storagePath fh)
      (hp : ¬ node.Passes writeStream storagePath count i fh) :
      FileCase node writeStream storagePath count i fh (none, .error err)
  | stored (path : String) (result : Except UploadError FileResult)
      (he : ∀ err, result = .error err → err.refusedSize = none)
      (hm : node.Missed storagePath fh ↔ node.limit < fh.content.length)
      (hp : node.Passes writeStream storagePath count i fh ↔ fh.content.length ≤ node.limit ∧ ∃ r, result = .ok r) :
      FileCase node writeStream storagePath count i fh (some ⟨i, path, fh.content⟩, result)

/-- A file that is missed and not refused at all gets through the limit. -/
theorem Missed.accepts (h : node.Missed storagePath fh) (hmax : node.maxSizeOrDefault ≠ Int64.maxValue) :
    fh.size = 0 ∧ node.limit < fh.content.length ∧ node.Accepts fh ∧ node.Storable storagePath fh.content := by
  obtain ⟨-, h⟩ := h
  rw [if_neg hmax] at h
  obtain ⟨hpos, hlength, hsize, hending, hstorable⟩ := h
  refine ⟨hsize, by omega, ⟨hmax, hpos, .inr ⟨hlength, hending⟩, ?_⟩, hstorable⟩
  intro msg hfail
  rw [hending] at hfail
  cases hfail

private theorem missed_iff_of_max (hmax : node.maxSizeOrDefault = Int64.maxValue) (hopen : fh.openErr = none) :
    node.Missed storagePath fh ↔ fh.content.length ≤ node.limit := by
  unfold Missed
  rw [if_pos hmax]
  exact and_iff_right hopen

private theorem declared_too_large (h : fh.size > 0 ∧ fh.size > node.maxSizeOrDefault) :
    node.limit < fh.content.length ∧ fh.size ≠ 0 := by
  obtain ⟨hpos, hlarge⟩ := h
  have hne : fh.size ≠ 0 := fun heq => absurd (heq ▸ hpos) (by decide)
  refine ⟨?_, hne⟩
  rw [← fh.size_eq.resolve_left hne]
  exact Int64.lt_iff_toInt_lt.1 hlarge

/-- A file that is read and stored is missed exactly if it is too large: its size is not declared, and it is one byte
too large. -/
private theorem missed_iff_of_accepts (hacc : node.Accepts fh) (hopen : fh.openErr = none)
    (hstorable : node.Storable storagePath fh.content)
    (hdeclared : ¬ (fh.size > 0 ∧ fh.size > node.maxSizeOrDefault)) :
    node.Missed storagePath fh ↔ node.limit < fh.content.length := by
  obtain ⟨hmax, hpos, hthrough, -⟩ := hacc
  refine ⟨fun hm => (hm.accepts hmax).2.1, fun hlarge => ⟨hopen, ?_⟩⟩
  rw [if_neg hmax]
  obtain ⟨hlength, hending⟩ := hthrough.resolve_left (not_le.2 hlarge)
  refine ⟨hpos, hlength, ?_, hending, hstorable⟩
  by_contra hne
  have hsize := fh.size_eq.resolve_left hne
  refine hdeclared ⟨Int64.lt_iff_toInt_lt.2 ?_, Int64.lt_iff_toInt_lt.2 ?_⟩
  · rw [hsize]
    exact lt_of_le_of_lt hpos hlarge
  · rw [hsize]
    exact hlarge

variable (node writeStream storagePath count i fh) in
private theorem handleFile_case : FileCase node writeStream storagePath count i fh
    (node.handleFile writeStream storagePath count i fh) := by
  unfold handleFile
  simp only
  split_ifs with hdeclared
  · -- refused for the declared size
    obtain ⟨hlarge, hne⟩ := declared_too_large hdeclared
    refine .refused _ rfl (iff_of_false (fun hm => ?_) (not_le.2 hlarge))
    by_cases hmax : node.maxSizeOrDefault = Int64.maxValue
    · exact not_le.2 hlarge ((missed_iff_of_max hmax hm.1).1 hm)
    · exact hne (hm.accepts hmax).1
  cases hopen : fh.openErr with
  | some err =>
    refine .failed _ rfl (fun hm => ?_) (fun hp => ?_)
    · cases hopen.symm.trans hm.1
    · cases hopen.symm.trans hp.1
  | none =>
    obtain ⟨lr, hread, hexc, hacc⟩ | ⟨bs, lr, hread, hexc, hacc, hsize⟩ | ⟨bs, msg, lr, hread, hmax, hfail⟩ :=
      node.readFile_cases fh
    · rw [hread]
      simp only [hexc, Bool.false_eq_true, if_false]
      split_ifs with hmime
      · -- the type is not allowed
        have hnot : ¬ node.Storable storagePath fh.content := by
          rintro ⟨hempty | hallowed, -⟩
          · exact hmime.1 hempty
          · exact absurd (hmime.2.symm.trans hallowed) (by decide)
        exact .failed _ rfl (fun hm => hnot (hm.accepts hacc.1).2.2.2) (fun hp => hnot hp.2.2.2.1)
      · cases hpath : Pathutil.validateRelative storagePath with
        | error err =>
          have hnot : ¬ node.Storable storagePath fh.content := by
            rintro ⟨-, hok⟩
            cases hpath.symm.trans hok
          exact .failed _ rfl (fun hm => hnot (hm.accepts hacc.1).2.2.2) (fun hp => hnot hp.2.2.2.1)
        | ok _ =>
          have hstorable : node.Storable storagePath fh.content := by
            refine ⟨?_, hpath⟩
            by_cases hempty : node.allowedTypes = []
            · exact .inl hempty
            · exact .inr (Bool.not_eq_false _ ▸ fun hfalse => hmime ⟨hempty, hfalse⟩)
          refine .stored _ _ ?_ (missed_iff_of_accepts hacc hopen hstorable hdeclared) ?_
          · intro err herr
            cases hwrite : writeStream (filePath storagePath count i) fh.content with
            | error err' =>
              rw [hwrite] at herr
              cases herr
              rfl
            | ok written =>
              rw [hwrite] at herr
              cases herr
          · cases hwrite : writeStream (filePath storagePath count i) fh.content with
            | error err => simp [Passes, hwrite]
            | ok written =>
              refine ⟨fun hp => ⟨hp.2.1, _, rfl⟩, fun hle => ?_⟩
              exact ⟨hopen, hle.1, hacc.2.2.2, hstorable, written, hwrite⟩
    · -- refused by the count
      rw [hread]
      simp only [hexc, if_true]
      refine .refused _ rfl ?_
      by_cases hmax : node.maxSizeOrDefault = Int64.maxValue
      · exact missed_iff_of_max hmax hopen
      · have hlarge := hsize.resolve_left hmax
        exact iff_of_false (fun hm => hacc (hm.accepts hmax).2.2.1) (not_le.2 hlarge)
    · rw [hread]
      refine .failed _ rfl (fun hm => ?_) (fun hp => hp.2.2.1 msg hfail)
      exact (hm.accepts hmax).2.2.1.2.2.2 msg hfail

variable {r : Option Write × Except UploadError FileResult}

theorem FileCase.keeps_iff (h : FileCase node writeStream storagePath count i fh r) :
    node.Keeps i fh r ↔ ¬ node.Missed storagePath fh := by
  cases h with
  | refused err he hm =>
    rw [hm, not_le]
    constructor
    · intro hk
      exact hk.refused err rfl he
    · intro hlarge
      exact ⟨fun w hw => (by cases hw), fun _ _ _ => hlarge⟩
  | failed err he hm hp =>
    refine iff_of_true ⟨fun w hw => (by cases hw), ?_⟩ hm
    intro err' herr hi
    cases herr
    rw [he] at hi
    cases hi
  | stored path result he hm hp =>
    rw [hm, not_lt]
    constructor
    · intro hk
      exact (hk.written _ rfl).2
    · intro hle
      refine ⟨?_, ?_⟩
      · intro w hw
        cases hw
        exact ⟨rfl, hle⟩
      · intro err herr hi
        rw [he err herr] at hi
        cases hi

theorem FileCase.ok_iff (h : FileCase node writeStream storagePath count i fh r)
    (hm : ¬ node.Missed storagePath fh) :
    (∃ result, r.2 = .ok result) ↔ node.Passes writeStream storagePath count i fh := by
  cases h with
  | refused err he hiff =>
    rw [hiff] at hm
    refine iff_of_false ?_ (fun hp => hm hp.2.1)
    rintro ⟨_, hok⟩
    cases hok
  | failed err he _ hp =>
    refine iff_of_false ?_ hp
    rintro ⟨_, hok⟩
    cases hok
  | stored path result he hiff hp =>
    rw [hiff, not_lt] at hm
    rw [hp]
    exact (and_iff_right hm).symm

theorem FileCase.place (h : FileCase node writeStream storagePath count i fh r) :
    (∀ w ∈ r.1, w.index = i) ∧ ∀ err, r.2 = .error err → ∀ j ∈ err.refusedSize, j = i := by
  cases h with
  | refused err he _ =>
    refine ⟨fun w hw => (by cases hw), fun err' herr j hj => ?_⟩
    cases herr
    rw [he] at hj
    exact (Option.some.inj hj).symm
  | failed err he _ _ =>
    refine ⟨fun w hw => (by cases hw), fun err' herr j hj => ?_⟩
    cases herr
    rw [he] at hj
    cases hj
  | stored path result he _ _ =>
    refine ⟨fun w hw => (by cases hw; rfl), fun err herr j hj => ?_⟩
    rw [he err herr] at hj
    cases hj

end

/-! ### All files -/

/-- The limit is kept: every write is the content of its file and no larger than allowed, and only a file that is too
large is refused for its size.  The places of the files begin with `base`. -/
structure SizeLimit {α : Type} (base : Nat) (files : List FileHeader) (run : List Write × Except UploadError α) :
    Prop where
  written : ∀ w ∈ run.1, ∃ k fh, w.index = base + k ∧ files[k]? = some fh ∧ w.content = fh.content ∧
    fh.content.length ≤ node.limit
  refused : ∀ err, run.2 = .error err → ∀ i ∈ err.refusedSize, ∃ k fh, i = base + k ∧ files[k]? = some fh ∧
    node.limit < fh.content.length

variable {node} in
/-- Only the writes and the refusals matter. -/
theorem SizeLimit.congr {α β : Type} {base : Nat} {files : List FileHeader} {run : List Write × Except UploadError α}
    {run' : List Write × Except UploadError β} (hws : run'.1 = run.1)
    (herr : ∀ err, err.refusedSize ≠ none → run'.2 = .error err → run.2 = .error err)
    (h : node.SizeLimit base files run) : node.SizeLimit base files run' where
  written := hws ▸ h.written
  refused := by
    intro err he i hi
    exact h.refused err (herr err (Option.ne_none_iff_exists'.2 ⟨i, hi⟩) he) i hi

/-- No file for which the limit is missed comes after files that all pass. -/
def InLimit (writeStream : String → List UInt8 → Except String Int) (storagePath : String) (count : Nat) :
    Nat → List FileHeader → Prop
  | _, [] => True
  | i, fh :: fhs => ¬ node.Missed storagePath fh ∧
      (node.Passes writeStream storagePath count i fh → InLimit writeStream storagePath count (i + 1) fhs)

section

variable {node} {α : Type} {base : Nat} {fh : FileHeader} {fhs : List FileHeader}

variable (writeStream : String → List UInt8 → Except String Int) (storagePath : String) (count : Nat)

private theorem handleFiles_of_error {err : UploadError}
    (h : (node.handleFile writeStream storagePath count base fh).2 = .error err) :
    node.handleFiles writeStream storagePath count base (fh :: fhs) =
      ((node.handleFile writeStream storagePath count base fh).1.toList, .error err) := by
  rw [handleFiles]
  rcases hr : node.handleFile writeStream storagePath count base fh with ⟨w, _ | _⟩
  · rw [hr] at h
    cases h
    rfl
  · rw [hr] at h
    cases h

variable (fhs) in
private theorem handleFiles_of_ok {result : FileResult}
    (h : (node.handleFile writeStream storagePath count base fh).2 = .ok result) :
    (node.handleFiles writeStream storagePath count base (fh :: fhs)).1 =
      (node.handleFile writeStream storagePath count base fh).1.toList ++
        (node.handleFiles writeStream storagePath count (base + 1) fhs).1 ∧
    ∀ err, (node.handleFiles writeStream storagePath count base (fh :: fhs)).2 = .error err ↔
      (node.handleFiles writeStream storagePath count (base + 1) fhs).2 = .error err := by
  rw [handleFiles]
  rcases hr : node.handleFile writeStream storagePath count base fh with ⟨w, _ | _⟩
  · rw [hr] at h
    cases h
  · rcases hrest : node.handleFiles writeStream storagePath count (base + 1) fhs with ⟨ws, _ | _⟩
    · simp
    · simp

variable (node) in
private theorem handleFiles_place (base : Nat) (fhs : List FileHeader) :
    (∀ w ∈ (node.handleFiles writeStream storagePath count base fhs).1, base ≤ w.index) ∧
    ∀ err, (node.handleFiles writeStream storagePath count base fhs).2 = .error err →
      ∀ i ∈ err.refusedSize, base ≤ i := by
  induction fhs generalizing base with
  | nil => exact ⟨fun w hw => (by cases hw), fun err herr => (by cases herr)⟩
  | cons fh fhs ih =>
    obtain ⟨hindex, hplace⟩ := (handleFile_case node writeStream storagePath count base fh).place
    cases hr : (node.handleFile writeStream storagePath count base fh).2 with
    | error err =>
      rw [handleFiles_of_error writeStream storagePath count hr]
      refine ⟨fun w hw => (hindex w (Option.mem_toList.1 hw)).ge, ?_⟩
      intro err' herr i hi
      cases herr
      exact (hplace err hr i hi).ge
    | ok result =>
      obtain ⟨hws, herrs⟩ := handleFiles_of_ok fhs writeStream storagePath count hr
      obtain ⟨ihw, iherr⟩ := ih (base + 1)
      rw [hws]
      refine ⟨fun w hw => ?_, fun err herr i hi => ?_⟩
      · rcases List.mem_append.1 hw with hw | hw
        · exact (hindex w (Option.mem_toList.1 hw)).ge
        · exact Nat.le_of_succ_le (ihw w hw)
      · exact Nat.le_of_succ_le (iherr err ((herrs err).1 herr) i hi)

variable (fhs) in
private theorem sizeLimit_cons_of_error {err : UploadError}
    (hr : (node.handleFile writeStream storagePath count base fh).2 = .error err) :
    node.SizeLimit base (fh :: fhs) (node.handleFiles writeStream storagePath count base (fh :: fhs)) ↔
    node.Keeps base fh (node.handleFile writeStream storagePath count base fh) := by
  obtain ⟨hindex, hplace⟩ := (handleFile_case node writeStream storagePath count base fh).place
  rw [handleFiles_of_error writeStream storagePath count hr]
  constructor
  · intro h
    refine ⟨?_, ?_⟩
    · intro w hw
      obtain ⟨k, fh', hk, hget, hrest⟩ := h.written w (Option.mem_toList.2 hw)
      obtain rfl : k = 0 := by have := hindex w hw; omega
      cases hget
      exact hrest
    · intro err' herr hbase
      obtain ⟨k, fh', hk, hget, hlarge⟩ := h.refused err' (by cases hr.symm.trans herr; rfl) base hbase
      obtain rfl : k = 0 := by omega
      cases hget
      exact hlarge
  · intro hkeeps
    refine ⟨?_, ?_⟩
    · intro w hw
      have hw := Option.mem_toList.1 hw
      exact ⟨0, fh, hindex w hw, rfl, hkeeps.written w hw⟩
    · intro err' herr i hi
      cases herr
      obtain rfl := hplace err hr i hi
      exact ⟨0, fh, rfl, rfl, hkeeps.refused err hr hi⟩

variable (fhs) in
private theorem sizeLimit_cons_of_ok {result : FileResult}
    (hr : (node.handleFile writeStream storagePath count base fh).2 = .ok result) :
    node.SizeLimit base (fh :: fhs) (node.handleFiles writeStream storagePath count base (fh :: fhs)) ↔
    node.Keeps base fh (node.handleFile writeStream storagePath count base fh) ∧
      node.SizeLimit (base + 1) fhs (node.handleFiles writeStream storagePath count (base + 1) fhs) := by
  obtain ⟨hindex, -⟩ := (handleFile_case node writeStream storagePath count base fh).place
  obtain ⟨hws, herrs⟩ := handleFiles_of_ok fhs writeStream storagePath count hr
  obtain ⟨hplacew, hplaceerr⟩ := handleFiles_place node writeStream storagePath count (base + 1) fhs
  constructor
  · intro h
    refine ⟨⟨?_, ?_⟩, ?_, ?_⟩
    · intro w hw
      obtain ⟨k, fh', hk, hget, hrest⟩ := h.written w (hws ▸ List.mem_append_left _ (Option.mem_toList.2 hw))
      obtain rfl : k = 0 := by have := hindex w hw; omega
      cases hget
      exact hrest
    · intro err herr
      cases hr.symm.trans herr
    · intro w hw
      obtain ⟨k, fh', hk, hget, hrest⟩ := h.written w (hws ▸ List.mem_append_right _ hw)
      have hge := hplacew w hw
      obtain ⟨k, rfl⟩ : ∃ k', k = k' + 1 := ⟨k - 1, by omega⟩
      exact ⟨k, fh', by omega, hget, hrest⟩
    · intro err herr i hi
      obtain ⟨k, fh', hk, hget, hlarge⟩ := h.refused err ((herrs err).2 herr) i hi
      have hge := hplaceerr err herr i hi
      obtain ⟨k, rfl⟩ : ∃ k', k = k' + 1 := ⟨k - 1, by omega⟩
      exact ⟨k, fh', by omega, hget, hlarge⟩
  · rintro ⟨hkeeps, hrest⟩
    refine ⟨?_, ?_⟩
    · intro w hw
      rcases List.mem_append.1 (hws ▸ hw) with hw | hw
      · have hw := Option.mem_toList.1 hw
        exact ⟨0, fh, hindex w hw, rfl, hkeeps.written w hw⟩
      · obtain ⟨k, fh', hk, hget, hcontent⟩ := hrest.written w hw
        exact ⟨k + 1, fh', by omega, hget, hcontent⟩
    · intro err herr i hi
      obtain ⟨k, fh', hk, hget, hlarge⟩ := hrest.refused err ((herrs err).1 herr) i hi
      exact ⟨k + 1, fh', by omega, hget, hlarge⟩

/-- The loop keeps the limit if the body keeps it for the first file and, when it goes on, the rest of the loop does for
the others. -/
private theorem sizeLimit_cons_iff :
    node.SizeLimit base (fh :: fhs) (node.handleFiles writeStream storagePath count base (fh :: fhs)) ↔
    node.Keeps base fh (node.handleFile writeStream storagePath count base fh) ∧
      ((∃ result, (node.handleFile writeStream storagePath count base fh).2 = .ok result) →
        node.SizeLimit (base + 1) fhs (node.handleFiles writeStream storagePath count (base + 1) fhs)) := by
  cases hr : (node.handleFile writeStream storagePath count base fh).2 with
  | error err =>
    rw [sizeLimit_cons_of_error fhs writeStream storagePath count hr]
    refine (and_iff_left ?_).symm
    rintro ⟨_, hok⟩
    cases hok
  | ok result =>
    rw [sizeLimit_cons_of_ok fhs writeStream storagePath count hr]
    exact and_congr_right fun _ => ⟨fun h _ => h, fun h => h ⟨result, rfl⟩⟩

private theorem handleFiles_sizeLimit_iff (base : Nat) (fhs : List FileHeader) :
    node.SizeLimit base fhs (node.handleFiles writeStream storagePath count base fhs) ↔
      node.InLimit writeStream storagePath count base fhs := by
  induction fhs generalizing base with
  | nil => exact iff_of_true ⟨fun w hw => (by cases hw), fun err herr => (by cases herr)⟩ trivial
  | cons fh fhs ih =>
    have hcase := handleFile_case node writeStream storagePath count base fh
    rw [sizeLimit_cons_iff, hcase.keeps_iff, ih]
    exact and_congr_right fun hm => by rw [hcase.ok_iff hm]

end

def files : List FileHeader :=
  match node.extractFiles node.fieldName (node.maxFiles.getD 1) with
  | .error _ => []
  | .ok files => files

private theorem execute_of_ready {writeStream : String → List UInt8 → Except String Int} {storagePath : String}
    (hsvc : node.destSvc = .ok writeStream) (hpath : node.path = .ok (.ok storagePath)) :
    node.execute.1 = (node.handleFiles writeStream storagePath node.files.length 0 node.files).1 ∧
    ∀ err, err.refusedSize ≠ none → (node.execute.2 = .error err ↔
      (node.handleFiles writeStream storagePath node.files.length 0 node.files).2 = .error err) := by
  unfold execute files
  rw [hsvc, hpath]
  rcases node.extractFiles node.fieldName (node.maxFiles.getD 1) with message | _ | ⟨fh, fhs⟩
  · refine ⟨rfl, fun err hsize => iff_of_false (fun h => ?_) (fun h => by cases h)⟩
    cases h
    exact hsize rfl
  · refine ⟨rfl, fun err hsize => iff_of_false (fun h => ?_) (fun h => by cases h)⟩
    cases h
    exact hsize rfl
  · simp only
    rcases node.handleFiles writeStream storagePath (fh :: fhs).length 0 (fh :: fhs) with ⟨ws, err | _ | ⟨_, _ | _⟩⟩
    · exact ⟨rfl, fun err' _ => by simp⟩
    · exact ⟨rfl, fun err' _ => by simp⟩
    · exact ⟨rfl, fun err' _ => by simp⟩
    · exact ⟨rfl, fun err' _ => by simp⟩

/-- The limit is kept exactly if no file that the loop comes to is one for which it is missed. -/
theorem execute_sizeLimit_iff : node.SizeLimit 0 node.files node.execute ↔
    ∀ writeStream storagePath, node.destSvc = .ok writeStream → node.path = .ok (.ok storagePath) →
      node.InLimit writeStream storagePath node.files.length 0 node.files := by
  constructor
  · intro h writeStream storagePath hsvc hpath
    obtain ⟨hws, herr⟩ := node.execute_of_ready hsvc hpath
    rw [← handleFiles_sizeLimit_iff]
    exact h.congr hws.symm fun err hsize he => (herr err hsize).2 he
  · intro h
    -- without a storage or a path nothing is written and nothing is refused for its size
    have hnothing : ∀ (err : UploadError), err.refusedSize = none → node.execute = ([], .error err) →
        node.SizeLimit 0 node.files node.execute := by
      intro err hsize hrun
      rw [hrun]
      refine ⟨fun w hw => (by cases hw), fun err' heq i hi => ?_⟩
      cases heq
      rw [hsize] at hi
      cases hi
    rcases hsvc : node.destSvc with err | writeStream
    · exact hnothing (.service err) rfl (by simp [execute, hsvc])
    · rcases hpath : node.path with err | type | storagePath
      · exact hnothing (.resolve err) rfl (by simp [execute, hsvc, hpath])
      · exact hnothing (.pathType type) rfl (by simp [execute, hsvc, hpath])
      · obtain ⟨hws, herr⟩ := node.execute_of_ready hsvc hpath
        have hloop := (handleFiles_sizeLimit_iff writeStream storagePath node.files.length 0 node.files).2
          (h writeStream storagePath hsvc hpath)
        exact hloop.congr hws fun err hsize he => (herr err hsize).1 he

/-- A node with a limit that gets one file of four bytes, without a declared size, from a reader that returns them
together with `io.EOF`. -/
def withLimit (maxSize : Int64) : Node where
  maxSize := some maxSize
  maxFiles := none
  allowedTypes := []
  field := none
  path := .ok (.ok "in")
  input := some fun _ => some (.file ⟨"a.txt", 0, none, [97, 98, 99, 100], [], .together, .inl rfl⟩)
  destSvc := .ok fun _ content => .ok content.length
  detectContentType := fun _ => "text/plain; charset=utf-8"
  extra := fun _ => 0

/-- Four bytes are written under a limit of three. -/
theorem not_sizeLimit_three : ¬ (withLimit 3).SizeLimit 0 (withLimit 3).files (withLimit 3).execute := by
  intro h
  obtain ⟨k, fh, hk, hget, hcontent, hle⟩ := h.written ⟨0, "in", [97, 98, 99, 100]⟩ (by decide +kernel)
  rw [← hcontent] at hle
  exact absurd hle (by decide)

/-- The greatest limit refuses them. -/
example : (withLimit 9223372036854775807).execute = ([], .error (.tooLarge "file" 0 9223372036854775807)) := by
  decide +kernel

end Node

end Noda.Upload

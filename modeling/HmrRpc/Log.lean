import HmrRpc.Common.Format
import HmrRpc.TransportRun

/-!
# Logging (`hmr_log.c`)

`hmr_log_impl` formats into a buffer of 2048 bytes on its stack and stores a zero at the
position that `vsnprintf` returns. Where the text was formatted in full the zero is there
already; otherwise it goes outside the buffer. Among the texts logged is the content of
messages, up to the first zero byte behind it.
-/

namespace HmrRpc

open Common

/-- `enum hmr_log_level`. -/
inductive HmrLogLevel
  | error | warn | info | debug | trace | last
  deriving DecidableEq, Repr

/-- The number of a level. -/
def HmrLogLevel.toNat : HmrLogLevel → ℕ
  | .error => 0 | .warn => 1 | .info => 2 | .debug => 3 | .trace => 4 | .last => 5

/-- `level_str`. -/
def levelStr : List String := ["ERROR", "WARN", "INFO", "DEBUG", "TRACE"]

/-- `sizeof(mbuf)`. -/
def sizeofMbuf : ℕ := 2048

/-- `sizeof(filebuf)`. -/
def sizeofFilebuf : ℕ := 270

/-- The results of the library calls, and the stack a call finds, with `mbuf` from address 0 on. -/
structure LogOutcomes where
  stack : Memory
  vsnprintfFailure : ℕ
  snprintfFailure : ℕ
  time : List UInt8

/-- What a call leaves: the position of the zero it stores, its stack, and the line printed, unless
the level has no name. -/
structure LogCall where
  terminatedAt : ℤ
  stack : Memory
  line : Option (List UInt8)

/-- The stack with what was printed to `mbuf`. -/
def stackPrinted (stack : Memory) (mbuf : Printed) : Memory :=
  stack.copy 0 (fun i => mbuf.stored[i]?.getD 0) mbuf.stored.length

/-- The name behind the last slash. -/
def shortFilename (file : List UInt8) : List UInt8 :=
  (file.reverse.takeWhile (· ≠ '/'.toUInt8)).reverse

/-- The string in `mbuf`. -/
def mbufText (stack : Memory) : List UInt8 :=
  cutAtZero ((List.range sizeofMbuf).map (stack.bytesAt 0))

/-- `%-28s` and `%-5s`. -/
def leftJustified (width : ℕ) (cs : List UInt8) : List UInt8 :=
  cs ++ List.replicate (width - cs.length) ' '.toUInt8

/-- The line `hmr_log_impl` prints. -/
def logLine (time filebuf mbuf : List UInt8) (level : String) : List UInt8 :=
  (formatted [.text (ascii "["), .other (some time), .text (ascii "] "),
    .other (some (leftJustified 28 filebuf)), .text (ascii " ["),
    .other (some (leftJustified 5 (ascii level))), .text (ascii "] - "), .str mbuf,
    .text (ascii "\n")]).1

/-- `hmr_log_impl`. -/
def hmrLogImpl (o : LogOutcomes) (file : List UInt8) (line : UInt32) (logLevel : HmrLogLevel)
    (fmt : List Piece) : LogCall :=
  let mbuf := vsnprintf o.vsnprintfFailure sizeofMbuf fmt
  -- the position is the length of the whole text, or negative
  let stack := Function.update (stackPrinted o.stack mbuf) mbuf.retval 0
  let filebuf := vsnprintf o.snprintfFailure sizeofFilebuf
    [.str (shortFilename file), .text (ascii ":"), .uint line]
  { terminatedAt := mbuf.retval
    stack := stack
    line := levelStr[logLevel.toNat]?.map
      (logLine o.time (cutAtZero filebuf.stored) (mbufText stack)) }

/-- `hmr_log`, with the level of `global_log_level`. -/
def hmrLog (globalLogLevel : HmrLogLevel) (o : LogOutcomes) (file : List UInt8) (line : UInt32)
    (level : HmrLogLevel) (fmt : List Piece) : Option LogCall :=
  if level.toNat < HmrLogLevel.last.toNat ∧ level.toNat ≤ globalLogLevel.toNat then
    some (hmrLogImpl o file line level fmt)
  else none

/-- The line with the content of a message, behind its first words. -/
def contentPieces (first : String) (dataSize : Int32) (content : List UInt8) : List Piece :=
  [.text (ascii first), .str content, .text (ascii "] length: ["), .int dataSize,
    .text (ascii "] success.")]

/-- The line with the content that `hmr_wc_success_handler` logs for an opcode. -/
def contentFormat (opcode : IbvWcOpcode) (dataSize : Int32) (content : List UInt8) :
    Option (List Piece) :=
  match opcode with
  | .send => some (contentPieces "send content: [" dataSize content)
  | .recv => some (contentPieces "recv content: [" dataSize content)
  | _ => none

/-- A position in `mbuf`. -/
def InMbuf (position : ℤ) : Prop := 0 ≤ position ∧ position < sizeofMbuf

instance (position : ℤ) : Decidable (InMbuf position) := inferInstanceAs (Decidable (_ ∧ _))

section Call

variable (o : LogOutcomes) (file : List UInt8) (line : UInt32) (level : HmrLogLevel)
  (fmt : List Piece)

/-- The zero goes into the buffer exactly if the whole text fits in front of it. -/
theorem hmrLogImpl_terminatedAt :
    InMbuf (hmrLogImpl o file line level fmt).terminatedAt ↔
      Converts fmt ∧ textLength fmt ≤ 2047 :=
  (vsnprintf_retval_mem (by decide)).trans (and_congr_right' Nat.lt_succ_iff)

/-- Inside the buffer it is there already, so the store counts only outside. -/
theorem hmrLogImpl_stack (a : ℤ) :
    (hmrLogImpl o file line level fmt).stack a =
      if a = (hmrLogImpl o file line level fmt).terminatedAt ∧ ¬InMbuf a then 0
      else stackPrinted o.stack (vsnprintf o.vsnprintfFailure sizeofMbuf fmt) a := by
  let mbuf := vsnprintf o.vsnprintfFailure sizeofMbuf fmt
  change Function.update (stackPrinted o.stack mbuf) mbuf.retval 0 a =
    if a = mbuf.retval ∧ ¬InMbuf a then 0 else stackPrinted o.stack mbuf a
  by_cases hretval : a = mbuf.retval
  · by_cases hinside : InMbuf a
    · obtain ⟨i, rfl⟩ := Int.eq_ofNat_of_zero_le hinside.1
      have hstored : mbuf.stored[i]? = some 0 :=
        vsnprintf_stored_retval (by decide) hretval.symm (Int.ofNat_lt.mp hinside.2)
      obtain ⟨hlength, -⟩ := List.getElem?_eq_some_iff.mp hstored
      have hprinted := Memory.copy_inside o.stack 0 (fun i => mbuf.stored[i]?.getD 0) hlength
      rw [zero_add, hstored, Option.getD_some] at hprinted
      rw [hretval, Function.update_self, ← hretval, if_neg (fun h => h.2 hinside)]
      exact hprinted.symm
    · rw [hretval, Function.update_self, if_pos ⟨rfl, hretval ▸ hinside⟩]
  · rw [Function.update_of_ne hretval, if_neg fun h => hretval h.1]

end Call

section Content

variable {dataSize : Int32} {content : List UInt8}

/-- A content line is made of its texts, the content and its size. -/
theorem textLength_contentPieces (first : String) :
    textLength (contentPieces first dataSize content) =
      first.length + content.length + 11 + (decimal dataSize.toInt).length + 10 := by
  have hfirst : (ascii first).length = first.length := by
    rw [ascii, List.length_map, String.length_toList]
  have hsize : (ascii "] length: [").length = 11 := rfl
  have hsuccess : (ascii "] success.").length = 10 := rfl
  simp only [textLength, contentPieces, Piece.length, Piece.bytes, List.map_cons, List.map_nil,
    List.sum_cons, List.sum_nil, Option.getD_some, hfirst, hsize, hsuccess]
  ring

/-- None of its conversions fails. -/
theorem converts_contentPieces (first : String) :
    Converts (contentPieces first dataSize content) := by
  simp [Converts, contentPieces, Piece.bytes]

/-- Both content lines have 36 bytes of text beside the content and its size. -/
theorem contentFormat_length {opcode : IbvWcOpcode} {fmt : List Piece}
    (h : contentFormat opcode dataSize content = some fmt) :
    Converts fmt ∧ textLength fmt = content.length + (decimal dataSize.toInt).length + 36 := by
  cases opcode with
  | send =>
    obtain rfl := Option.some.inj h
    refine ⟨converts_contentPieces _, (textLength_contentPieces _).trans ?_⟩
    rw [show "send content: [".length = 15 from rfl]
    ring
  | recv =>
    obtain rfl := Option.some.inj h
    refine ⟨converts_contentPieces _, (textLength_contentPieces _).trans ?_⟩
    rw [show "recv content: [".length = 15 from rfl]
    ring
  | rdmaWrite | rdmaRead | other => contradiction

end Content

/-- The zero stays in the buffer exactly if no conversion fails and the text has at most 2047 bytes;
so for the content of a message exactly if the content and the digits of its size have at most
2011. -/
theorem logTerminator_iff (o : LogOutcomes) (file : List UInt8) (line : UInt32) :
    (∀ (level : HmrLogLevel) (fmt : List Piece),
      InMbuf (hmrLogImpl o file line level fmt).terminatedAt ↔
        Converts fmt ∧ textLength fmt ≤ 2047) ∧
    ∀ (t : HmrRdmaTransport) (wc : IbvWc) (bytes : ℕ → UInt8), t.bufferBytes wc.wrId = .ok bytes →
      ∀ (content : CString (HmrMsg.decode bytes).data) (fmt : List Piece),
        contentFormat wc.opcode (HmrMsg.decode bytes).dataSize content.text = some fmt →
        ∃ call, hmrLog .trace o file line .info fmt = some call ∧
          (InMbuf call.terminatedAt ↔
            content.length + (decimal (HmrMsg.decode bytes).dataSize.toInt).length ≤ 2011) := by
  refine ⟨hmrLogImpl_terminatedAt o file line, fun t wc bytes _ content fmt hformat => ?_⟩
  obtain ⟨hconverts, hlength⟩ := contentFormat_length hformat
  have htext : content.text.length = content.length := by simp [CString.text]
  refine ⟨hmrLogImpl o file line .info fmt, rfl, ?_⟩
  rw [hmrLogImpl_terminatedAt, and_iff_right hconverts]
  omega

/-- The pool behind a message of six bytes, of which the last is a zero. -/
def greetedPool : HmrMempool :=
  { samplePool with
    memory := samplePool.memory.copy 1024
      (HmrMsg.frame ⟨.normal, 6, fun i => if i < 5 then 104 else 0⟩).byte 14 }

/-- What is logged as its content. -/
def greeting : CString (HmrMsg.decode (greetedPool.memory.bytesAt 1024)).data where
  length := 5
  inside := by decide
  ends := by decide

/-- Its line has 42 bytes. -/
theorem logTerminator_sample :
    let t := { sampleTransport with normalMempool := some greetedPool }
    let bytes := greetedPool.memory.bytesAt 1024
    t.bufferBytes (recvTask greetedPool maxRecvSize 0) = .ok bytes ∧ greeting.text.length = 5 ∧
      ∃ fmt, contentFormat .recv (HmrMsg.decode bytes).dataSize greeting.text = some fmt ∧
        ∃ call, hmrLog .trace ⟨fun _ => 0, 0, 0, []⟩ (ascii "src/hmr_rdma_transport.c") 247 .info
            fmt = some call ∧
          (InMbuf call.terminatedAt ↔
            greeting.length + (decimal (HmrMsg.decode bytes).dataSize.toInt).length ≤ 2011) ∧
          InMbuf call.terminatedAt := by
  intro t bytes
  have hbytes : t.bufferBytes (recvTask greetedPool maxRecvSize 0) = .ok bytes := rfl
  have hshort : greeting.length + (decimal (HmrMsg.decode bytes).dataSize.toInt).length ≤ 2011 := by
    decide
  obtain ⟨call, hcall, hinside⟩ := (logTerminator_iff ⟨fun _ => 0, 0, 0, []⟩
    (ascii "src/hmr_rdma_transport.c") 247).2 t ⟨recvTask greetedPool maxRecvSize 0, .success, .recv⟩
    bytes hbytes greeting _ rfl
  exact ⟨hbytes, by decide, _, rfl, call, hcall, hinside, hinside.mpr hshort⟩

/-- The pool behind a message of eight bytes, with no zero up to the last byte of `rdma_region`. -/
def filledPool : HmrMempool :=
  { samplePool with
    memory := fun a => if a = 1024 then 1 else if a = 1028 then 8
      else if 1032 ≤ a ∧ a < 3071 then 65 else 0 }

/-- The data of the message goes on to the last byte. -/
theorem filledPool_data {i : ℕ} (hi : i < 2039) :
    (HmrMsg.decode (filledPool.memory.bytesAt 1024)).data i = 65 := by
  have haddr : (1024 : ℤ) + ((sizeofMsgType + sizeofInt + i : ℕ) : ℤ) = 1032 + i := by
    simp only [sizeofMsgType, sizeofInt]
    omega
  have hmem : (1032 : ℤ) ≤ 1032 + i ∧ (1032 : ℤ) + i < 3071 := by omega
  have htype : (1032 : ℤ) + i ≠ 1024 := by omega
  have hsize : (1032 : ℤ) + i ≠ 1028 := by omega
  simp only [HmrMsg.decode, filledPool, Memory.bytesAt, haddr, if_neg htype, if_neg hsize,
    if_pos hmem]

/-- What is logged as its content. -/
def filledContent : CString (HmrMsg.decode (filledPool.memory.bytesAt 1024)).data where
  length := 2039
  inside _ hi := filledPool_data hi ▸ by decide
  ends := rfl

/-- Its zero goes 28 bytes behind the buffer. -/
theorem contentLine_overruns :
    let t := { sampleTransport with normalMempool := some filledPool }
    let bytes := filledPool.memory.bytesAt 1024
    t.bufferBytes (recvTask filledPool maxRecvSize 0) = .ok bytes ∧
      ∃ fmt, contentFormat .recv (HmrMsg.decode bytes).dataSize filledContent.text = some fmt ∧
        ∃ call, hmrLog .trace ⟨fun _ => 0, 0, 0, []⟩ (ascii "src/hmr_rdma_transport.c") 247 .info
            fmt = some call ∧
          call.terminatedAt = 2076 ∧ ¬InMbuf call.terminatedAt := by
  intro t bytes
  obtain ⟨fmt, hformat⟩ : ∃ fmt,
      contentFormat .recv (HmrMsg.decode bytes).dataSize filledContent.text = some fmt := ⟨_, rfl⟩
  obtain ⟨hconverts, hlength⟩ := contentFormat_length hformat
  have htext : filledContent.text.length = 2039 := by simp [CString.text, filledContent]
  have hsize : (decimal (HmrMsg.decode bytes).dataSize.toInt).length = 1 := by decide
  have hretval : (vsnprintf 0 sizeofMbuf fmt).retval = 2076 := by
    rw [vsnprintf_retval hconverts (by omega)]
    omega
  refine ⟨rfl, fmt, hformat, _, rfl, hretval, ?_⟩
  change ¬InMbuf (vsnprintf 0 sizeofMbuf fmt).retval
  rw [hretval]
  decide

end HmrRpc

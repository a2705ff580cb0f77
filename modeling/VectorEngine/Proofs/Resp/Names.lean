import Mathlib.Data.List.Forall2
import VectorEngine.Proofs.Resp.Grammar
import VectorEngine.Worker

/-!
# `VectorEngine.Proofs.Resp.Names`: names and tasks

`RespTaskCreator::create` looks up the lowered name. A name is whatever bytes the client sent,
and `str::to_lower` hands each of them to `std::tolower` as a `char`, which is signed: from 128
on the argument is negative. The siblings `trim_left` and `trim_right` cast to `unsigned char`
first.

`Selects` says what is asked of the selection of a task. The task is always the right one, as
far as the C library lets calls outside its domain pass (`Str.tolower`), so that
`task_selection_iff` comes down to the domain: it is kept exactly by the names without bytes
from 128 to 254. The byte 255 is `-1` as a `char`, which happens to be `EOF`.
-/

set_option autoImplicit false

namespace VectorEngine

namespace Str

/-- `EOF` -/
def EOF : Int := -1

/-- The domain of `std::tolower`: the values of an `unsigned char`, and `EOF`. -/
def InDomain (n : Int) : Prop := (0 ≤ n ∧ n ≤ 255) ∨ n = EOF

/-- The domain of `std::tolower` is a range and `EOF`, so that membership can be decided for each
byte. -/
instance (n : Int) : Decidable (InDomain n) :=
  inferInstanceAs (Decidable ((0 ≤ n ∧ n ≤ 255) ∨ n = EOF))

/-- The arguments of `std::tolower` in `to_lower(str)`, call by call. -/
def tolowerArgs (str : ByteString) : List Int := str.map charToInt

/-- `u` is the capital of the small letter `l`. -/
def Capital (u l : Byte) : Prop := (97 ≤ l.toNat ∧ l.toNat ≤ 122) ∧ u.toNat + 32 = l.toNat

/-- The same byte, or the same ASCII letter in the other case. -/
def SameLetter (a b : Byte) : Prop := a = b ∨ Capital a b ∨ Capital b a

/-- Equal up to ASCII letter case. -/
def EqUpToCase (s t : ByteString) : Prop := List.Forall₂ SameLetter s t

/-- `to_lower` is the results of the calls, stored as `char`. -/
theorem toLower_eq (str : ByteString) :
    toLower str = (tolowerArgs str).map fun n => intToChar (tolower n) := by
  unfold toLower tolowerArgs
  rw [List.map_map]
  rfl

/-- A byte is in the domain of `std::tolower` if it is ASCII, or is the one byte that a signed
`char` turns into `EOF`. -/
theorem inDomain_charToInt (b : Byte) :
    InDomain (charToInt b) ↔ b.toNat < 128 ∨ b.toNat = 255 := by
  have hlt := b.toNat_lt
  unfold InDomain charToInt EOF
  split <;> omega

/-- One byte, lowered: a capital becomes small, and every other byte stays. -/
theorem toNat_lowered (b : Byte) :
    (intToChar (tolower (charToInt b))).toNat
      = if 65 ≤ b.toNat ∧ b.toNat ≤ 90 then b.toNat + 32 else b.toNat := by
  have hlt := b.toNat_lt
  have hstored : ∀ n : Int, (intToChar n).toNat = (n % 256).toNat := by
    intro n
    unfold intToChar
    rw [UInt8.toNat_ofNat']
    omega
  rw [hstored]
  unfold tolower charToInt
  split <;> split <;> split <;> omega

/-- A byte is lowered to a small letter exactly from that letter in either case. -/
theorem lowered_eq_iff {b l : Byte} (hl : 97 ≤ l.toNat ∧ l.toNat ≤ 122) :
    intToChar (tolower (charToInt b)) = l ↔ SameLetter b l := by
  have hlowered := toNat_lowered b
  rw [← UInt8.toNat_inj, hlowered]
  unfold SameLetter Capital
  rw [← UInt8.toNat_inj]
  split <;> omega

/-- A name is lowered to a word of small letters exactly when it is that word up to case. -/
theorem toLower_eq_iff {word : ByteString}
    (hword : ∀ l ∈ word, 97 ≤ l.toNat ∧ l.toNat ≤ 122) (name : ByteString) :
    toLower name = word ↔ EqUpToCase name word := by
  rw [toLower_eq]
  unfold tolowerArgs EqUpToCase
  induction name generalizing word with
  | nil =>
    cases word with
    | nil => simp
    | cons l word => simp
  | cons b name ih =>
    cases word with
    | nil => simp
    | cons l word =>
      have hl := hword l (by simp)
      have htail := @ih word fun l' hl' => hword l' (by simp [hl'])
      rw [List.map_cons, List.map_cons, List.cons.injEq, List.forall₂_cons, lowered_eq_iff hl, htail]

end Str

namespace Resp

/-- What is asked of `RespTaskCreator::create` for a command:

- `domain`: it calls `std::tolower` in its domain only;
- `ping`: the task is a `PingTask` exactly when the name is `ping` up to case;
- `unknown`: else it is an `UnknownTask` that holds the command as it came, and its reply shows
  the name as the client spelled it. -/
structure Selects (cmd : RespCommand) : Prop where
  domain : ∀ n ∈ Str.tolowerArgs cmd.name, Str.InDomain n
  ping : RespTaskCreator.create cmd = .ping ↔ Str.EqUpToCase cmd.name (bytesOf "ping")
  unknown : ¬ Str.EqUpToCase cmd.name (bytesOf "ping") →
    RespTaskCreator.create cmd = .unknown cmd ∧
      replyOf cmd = bytesOf "-unknown command: " ++ cmd.name ++ CRLF

/-- The task of a command, by its name up to case. -/
theorem create_of_name (cmd : RespCommand) :
    (Str.EqUpToCase cmd.name (bytesOf "ping") → RespTaskCreator.create cmd = .ping) ∧
      (¬ Str.EqUpToCase cmd.name (bytesOf "ping") →
        RespTaskCreator.create cmd = .unknown cmd) := by
  have hname := @Str.toLower_eq_iff (bytesOf "ping") (by decide +kernel) cmd.name
  rw [RespTaskCreator.create_eq, ← hname]
  exact ⟨fun h => if_pos h, fun h => if_neg h⟩

/-- The selection of a task is right exactly when no byte of the name is outside the domain of
`std::tolower` as a `char`. -/
theorem selects_iff (cmd : RespCommand) :
    Selects cmd ↔ ∀ b ∈ cmd.name, b.toNat < 128 ∨ b.toNat = 255 := by
  obtain ⟨hping, hunknown⟩ := create_of_name cmd
  constructor
  · intro h b hb
    have harg : Str.charToInt b ∈ Str.tolowerArgs cmd.name := List.mem_map_of_mem hb
    exact (Str.inDomain_charToInt b).mp (h.domain _ harg)
  · intro h
    refine ⟨?_, ?_, ?_⟩
    · intro n hn
      obtain ⟨b, hb, rfl⟩ := List.mem_map.mp hn
      exact (Str.inDomain_charToInt b).mpr (h b hb)
    -- An unknown task is no `PingTask`.
    · refine ⟨fun hcreate => ?_, hping⟩
      by_contra hname
      rw [hunknown hname] at hcreate
      cases hcreate
    · intro hname
      have hcreate := hunknown hname
      refine ⟨hcreate, ?_⟩
      unfold replyOf
      rw [hcreate]
      show '-'.toUInt8 :: (bytesOf "unknown command: " ++ cmd.name) ++ CRLF = _
      rfl

/-- **Task selection.** The tasks of a request are those of the commands that the parser
returns, and for each of these commands the selection is right exactly when every byte of its
name is below 128, or is 255. -/
theorem task_selection_iff {A : Allocator} {buf : ByteString} {cmds : List RespCommand}
    {len : Nat} (hparse : parse A buf = .ok (cmds, len)) :
    RespRequestParser.parse A buf = .ok (cmds.map RespTaskCreator.create, len) ∧
      ∀ cmd ∈ cmds, (Selects cmd ↔ ∀ b ∈ cmd.name, b.toNat < 128 ∨ b.toNat = 255) := by
  refine ⟨?_, fun cmd _ => selects_iff cmd⟩
  unfold RespRequestParser.parse
  rw [hparse]
  rfl

/-- `PING` and an unknown name, which are ASCII. The first is recognised, and the second is kept
as it came. -/
theorem task_selection_iff_two :
    Selects ping ∧ Selects { name := bytesOf "Get", args := [bytesOf "k"] } := by
  have hparse : parse .ample (pingFrame ++ bytesOf "*2\r\n$3\r\nGet\r\n$1\r\nk\r\n")
      = .ok ([ping, { name := bytesOf "Get", args := [bytesOf "k"] }], 34) := by
    decide +kernel
  obtain ⟨-, hselects⟩ := task_selection_iff hparse
  refine ⟨(hselects _ (by simp)).mpr ?_, (hselects _ (by simp)).mpr ?_⟩
  · decide +kernel
  · decide +kernel

/-- The parser returns a command with the name 0x80, and `std::tolower` is called with -128, which
is neither a value of an `unsigned char` nor `EOF`. -/
theorem task_selection_fails :
    parse .ample (bytesOf "*1\r\n$1\r\n" ++ 128 :: CRLF)
        = .ok ([{ name := [128], args := [] }], 11) ∧
      Str.tolowerArgs [128] = [-128] ∧ ¬ Selects { name := [128], args := [] } := by
  refine ⟨by decide +kernel, by decide +kernel, fun h => ?_⟩
  have hdomain := h.domain (-128) (by decide +kernel)
  exact absurd hdomain (by decide +kernel)

end Resp

end VectorEngine

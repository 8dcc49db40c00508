import Mathlib.Data.List.Basic

/-!
# Third — `noglobalmsg`: no `PRIVMSG $*`

`override_privmsg` runs in place of the `PRIVMSG` handler. It copies the
target list `parv[1]` into a `BUFSIZE` buffer, walks its comma-separated
targets with `strtoken`, and answers `ERR_YOUREBANNEDCREEP` at the first one
that begins with `$`; otherwise it hands the command on to the handler it
overrides. Before all that it returns when there is no message text
(`parc < 3 || BadPtr(parv[2])`), with no reply and without handing the command
on (`privmsg_without_text_vanishes`).

`BUFSIZE`, `BadPtr` and `strtoken` belong to the host, not to src/: they are
the parameters of `Ircd`.
-/

namespace HistoryBackendMem.Noglobalmsg

/-- The host's parts `override_privmsg` uses. -/
structure Ircd where
  /-- `BUFSIZE`, the size of the `targets` buffer. -/
  bufsize : Nat
  /-- `BadPtr(x)`: a parameter that is NULL or unusable. -/
  badPtr : Option String → Bool
  /-- The targets `strtoken(&p, targets, ",")` returns, in turn, on the
  buffer `targets`, up to its NULL. -/
  strtokens : List Char → List (List Char)

/-- What `override_privmsg` does with a command. -/
inductive Outcome where
  /-- `CallCommandOverride(ovr, client, recv_mtags, parc, parv)`: the command
  goes on to the overridden handler as it came. -/
  | forward
  /-- `sendnumeric(client, ERR_YOUREBANNEDCREEP, text)`, and nothing else. -/
  | creep (text : String)
  /-- `return` with neither. -/
  | silent
deriving DecidableEq, Repr

/-- `strlcpy(dst, src, size)`: at most `size - 1` characters of `src`. -/
def strlcpy (size : Nat) (src : String) : List Char := src.data.take (size - 1)

/-- The `for` over the targets: the reply at the first one that begins with
`$`, the handler when none does. -/
def targetLoop : List (List Char) → Outcome
  | [] => .forward
  | t :: ts => if t.head? = some '$' then .creep "Why would you want to do that?!" else targetLoop ts

/-- `override_privmsg(client, recv_mtags, parc, parv)` with `args` the
parameters `parv[1] .. parv[parc - 1]`, so that `parc = args.length + 1`. -/
def overridePrivmsg (I : Ircd) (args : List String) : Outcome :=
  if args.length + 1 < 3 ∨ I.badPtr args[1]? then .silent
  else targetLoop (I.strtokens (strlcpy I.bufsize (args.headD "")))

/-- The loop hands the command on exactly when no target begins with `$`. -/
theorem targetLoop_eq_forward_iff (ts : List (List Char)) :
    targetLoop ts = .forward ↔ ∀ t ∈ ts, t.head? ≠ some '$' := by
  induction ts with
  | nil => simp [targetLoop]
  | cons t ts ih =>
    by_cases h : t.head? = some '$'
    · simp [targetLoop, h]
    · simp [targetLoop, h, ih]

/-- The loop either hands the command on or replies, never neither. -/
theorem targetLoop_ne_silent (ts : List (List Char)) : targetLoop ts ≠ .silent := by
  induction ts with
  | nil => simp [targetLoop]
  | cons t ts ih =>
    unfold targetLoop
    split <;> simp [ih]

/-- **With a message text**, `override_privmsg` hands the command on exactly
when no target of the copied list begins with `$`, and replies otherwise. -/
theorem overridePrivmsg_of_text (I : Ircd) {args : List String} (hparc : 2 ≤ args.length)
    (htext : I.badPtr args[1]? = false) :
    overridePrivmsg I args ≠ .silent ∧
    (overridePrivmsg I args = .forward ↔
      ∀ t ∈ I.strtokens (strlcpy I.bufsize (args.headD "")), t.head? ≠ some '$') := by
  have hg : ¬ (args.length + 1 < 3 ∨ I.badPtr args[1]? = true) := by
    rw [htext]; simp; omega
  rw [overridePrivmsg, if_neg hg]
  exact ⟨targetLoop_ne_silent _, targetLoop_eq_forward_iff _⟩

/-- A host whose `strtoken` returns the runs between commas, empty ones
skipped, and whose `BadPtr` holds of NULL alone. -/
def Ircd.sample : Ircd := ⟨512, Option.isNone, fun cs => (cs.splitOn ',').filter fun t => !t.isEmpty⟩

/-- `PRIVMSG #a,$* :hi`: the second target begins with `$`, so the command
gets the reply and is not handed on. -/
theorem overridePrivmsg_of_text_sample :
    2 ≤ ["#a,$*", "hi"].length ∧ Ircd.sample.badPtr ["#a,$*", "hi"][1]? = false ∧
    (overridePrivmsg Ircd.sample ["#a,$*", "hi"] ≠ .silent ∧
      (overridePrivmsg Ircd.sample ["#a,$*", "hi"] = .forward ↔
        ∀ t ∈ Ircd.sample.strtokens (strlcpy Ircd.sample.bufsize (["#a,$*", "hi"].headD "")),
          t.head? ≠ some '$')) ∧
    overridePrivmsg Ircd.sample ["#a,$*", "hi"] = .creep "Why would you want to do that?!" :=
  ⟨by decide, rfl, overridePrivmsg_of_text _ (by decide) rfl, by decide⟩

/-- **A `PRIVMSG` without text vanishes**: with `parc = 2`, whatever the
targets and the host, `override_privmsg` neither replies nor hands the command
on. -/
theorem privmsg_without_text_vanishes (I : Ircd) (targets : String) :
    overridePrivmsg I [targets] = .silent := by
  simp [overridePrivmsg]

end HistoryBackendMem.Noglobalmsg

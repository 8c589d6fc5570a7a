import Kingkong.Lib.Run
import Kingkong.Mvvm.Param
import Mathlib.Logic.Function.Basic

/-!
`VarCache` and the way of a notification into the Java machine. Threads are numbered, and so are the
class objects and the method ids of the machine. What the machine answers is part of the event. A
step that would use a null pointer has no next state, and the same goes for `FatalError`.
-/

namespace Kingkong.Jni
open Lib

def utf8 (s : String) : Bytes := s.toUTF8.toList

structure JniMethodInfo where
  classname : Bytes
  methodname : Bytes
  methodsig : Bytes
  deriving DecidableEq

/-- `findClass` depends on the class loader of the thread. -/
structure Vm where
  findClass : Nat → Bytes → Option Nat
  getStaticMethodID : Nat → Bytes → Bytes → Option Nat
  getMethodID : Nat → Bytes → Bytes → Option Nat

inductive Throwable where
  | unsatisfiedLinkError (message : Bytes)
  | outOfMemoryError
  | other
  deriving DecidableEq

/-- What `getMessage` of an exception does. -/
inductive Message where
  | null
  | text (message : Bytes)
  | throws
  deriving DecidableEq

/-- An exception of a Java method. `trace` is its stack trace in UTF-16, if that can be printed. -/
structure Exception where
  className : Bytes
  message : Message
  trace : Option (List UInt16)
  deriving DecidableEq

/-- A thread as the machine has it. `frames` counts the local references of each frame, with the
innermost first. `misused` is set by a call that is not allowed while an exception is pending, and
`overrun` by bytes behind a buffer. -/
structure Env where
  attached : Bool := false
  pending : Option Throwable := none
  frames : List Nat := [0]
  misused : Bool := false
  overrun : Bool := false
  deriving DecidableEq

structure Call where
  thread : Nat
  method : Nat
  view : Int
  id : Int
  array : Bytes
  deriving DecidableEq

/-- `globals` has the class objects that the cache has global references to. -/
structure State where
  classMap : List (Bytes × Nat) := []
  globals : List Nat := []
  env : Nat → Env := fun _ => {}
  calls : List Call := []
  log : List Bytes := []

/-- What the machine does in a notification: whether it attaches the thread, whether it has room for
a frame and for the array, and what the method throws. -/
structure Answers where
  attach : Bool := true
  push : Bool := true
  array : Bool := true
  thrown : Option Exception := none

namespace Env

def newLocalRef (e : Env) : Env :=
  { e with frames := match e.frames with
    | [] => []
    | n :: rest => (n + 1) :: rest }

def deleteLocalRef (e : Env) : Env :=
  { e with frames := match e.frames with
    | [] => []
    | n :: rest => (n - 1) :: rest }

/-- After a failed lookup: `ExceptionOccurred`, `ExceptionClear`, `FindClass` and `ThrowNew`, with
what fits into `err_msg`. -/
def linkError (message : Bytes) (e : Env) : Env :=
  { e.newLocalRef.newLocalRef with pending := some (.unsatisfiedLinkError (message.take 511)) }

/-- `NewByteArray`, which is not allowed while an exception is pending. -/
def newByteArray (e : Env) : Env := { e.newLocalRef with misused := e.misused || e.pending.isSome }

/-- A thread that is attached, with the frame that was pushed or the exception of a frame that was
not. -/
def enter (push : Bool) (e : Env) : Env :=
  { e with
    attached := true
    frames := if push then 0 :: e.frames else e.frames
    pending := if push then e.pending else some .outOfMemoryError }

/-- `PopLocalFrame`. -/
def leave (e : Env) : Env := { e with frames := e.frames.tail }

end Env

/-! ### Logging an exception -/

/-- A unit of UTF-16 in the encoding of `GetStringUTFRegion`. -/
def modifiedUtf8 (unit : UInt16) : Bytes :=
  let n := unit.toNat
  if n ≠ 0 ∧ n < 0x80 then [UInt8.ofNat n]
  else if n < 0x800 then [UInt8.ofNat (0xC0 + n / 64), UInt8.ofNat (0x80 + n % 64)]
  else [UInt8.ofNat (0xE0 + n / 4096), UInt8.ofNat (0x80 + n / 64 % 64), UInt8.ofNat (0x80 + n % 64)]

/-- The text in the buffer, whether it was left, and whether another exception is pending then. -/
structure Printed where
  buffer : Bytes
  overrun : Bool := false
  throws : Bool := false

/-- The reference of `ExceptionOccurred` is not deleted. -/
def Env.logged (printed : Printed) (e : Env) : Env :=
  { e.newLocalRef with
    pending := if printed.throws then some .other else none
    overrun := e.overrun || printed.overrun }

def getExceptionSummary (exception : Exception) (bufLen : Nat) : Printed :=
  match exception.message with
  | .text message => { buffer := (exception.className ++ utf8 ": " ++ message).take (bufLen - 1) }
  | .null => { buffer := exception.className.take (bufLen - 1) }
  | .throws => { buffer := exception.className.take (bufLen - 1), throws := true }

/-- The trace is cut to units for as many bytes as the buffer has. -/
def printStackTrace (exception : Exception) (bufLen : Nat) : Printed :=
  match exception.trace with
  | some units =>
    let messageStrLength := if bufLen ≤ units.length then bufLen - 1 else units.length
    let region := (units.take messageStrLength).flatMap modifiedUtf8
    { buffer := region.take messageStrLength, overrun := decide (bufLen < region.length) }
  | none => getExceptionSummary exception bufLen

namespace State

def setEnv (s : State) (t : Nat) (f : Env → Env) : State :=
  { s with env := Function.update s.env t (f (s.env t)) }

/-- `jniLogException` after a method has thrown. -/
def jniLogException (t : Nat) (exception : Exception) (s : State) : State :=
  let printed := printStackTrace exception 1024
  { s.setEnv t (Env.logged printed) with log := s.log ++ [printed.buffer] }

/-! ### The cache -/

/-- The local reference of `FindClass` is deleted again, but not the one of `ExceptionOccurred`. -/
def getClass (vm : Vm) (t : Nat) (classPath : Bytes) (s : State) : Option Nat × State :=
  if (s.env t).pending.isSome then (none, s.setEnv t Env.newLocalRef)
  else
    match s.classMap.lookup classPath with
    | some clz => (some clz, s)
    | none =>
      match vm.findClass t classPath with
      | some clz => (some clz, { s with classMap := s.classMap ++ [(classPath, clz)], globals := s.globals ++ [clz] })
      | none => (none, s.setEnv t (Env.linkError (utf8 "classPath:" ++ classPath)))

/-- What `GetStaticMethodId` and `GetMethodId` have in common. -/
def getId (find : Nat → Bytes → Bytes → Option Nat) (t : Nat) (clz : Option Nat)
    (name signature : Bytes) (s : State) :
    Option Nat × State :=
  if (s.env t).pending.isSome then (none, s.setEnv t Env.newLocalRef)
  else
    match clz with
    | none => (none, s)
    | some clz =>
      match find clz name signature with
      | some mid => (some mid, s)
      | none => (none, s.setEnv t (Env.linkError (utf8 "method:" ++ name ++ utf8 ", sig:" ++ signature)))

def getStaticMethodId (vm : Vm) : Nat → Option Nat → Bytes → Bytes → State → Option Nat × State :=
  getId vm.getStaticMethodID

def getMethodId (vm : Vm) : Nat → Option Nat → Bytes → Bytes → State → Option Nat × State :=
  getId vm.getMethodID

/-- The overloads that are given the path of the class. -/
def getIdOf (find : Nat → Bytes → Bytes → Option Nat) (vm : Vm) (t : Nat) (info : JniMethodInfo)
    (s : State) :
    Option Nat × State :=
  getId find t (s.getClass vm t info.classname).1 info.methodname info.methodsig (s.getClass vm t info.classname).2

/-! ### `JNI_OnLoad` -/

/-- The loop of `LoadClass`, `LoadStaticMethod` and `LoadMethod`, which ends with the first lookup
that fails. -/
def load {α : Type} (get : α → State → Option Nat × State) : List α → State → Bool × State
  | [], s => (true, s)
  | item :: rest, s =>
    match get item s with
    | (some _, s) => load get rest s
    | (none, s) => (false, s)

def loadClass (vm : Vm) (t : Nat) : List Bytes → State → Bool × State := load (getClass vm t)

def loadStaticMethod (vm : Vm) (t : Nat) : List JniMethodInfo → State → Bool × State :=
  load (getIdOf vm.getStaticMethodID vm t)

def loadMethod (vm : Vm) (t : Nat) : List JniMethodInfo → State → Bool × State :=
  load (getIdOf vm.getMethodID vm t)

/-- The constructor of `ScopeJEnv`. A frame that cannot be pushed is not looked at. -/
def enter (t : Nat) (answers : Answers) (s : State) : Option State :=
  if (s.env t).attached || answers.attach then
    some (s.setEnv t (Env.enter answers.push))
  else none

/-- The destructor of `ScopeJEnv`. -/
def leave (t : Nat) (s : State) : State := s.setEnv t Env.leave

/-- `JNI_OnLoad` with the classes and methods that were registered. It does not look at what the
loops return. -/
def onLoad (vm : Vm) (t : Nat) (answers : Answers) (classes : List Bytes)
    (staticMethods methods : List JniMethodInfo) (s : State) : Option State :=
  (s.enter t answers).map fun s =>
    let s := (s.loadClass vm t classes).2
    let s := (s.loadStaticMethod vm t staticMethods).2
    (s.loadMethod vm t methods).2.leave t

/-- `VarCache::Release`, with the global references that are deleted. -/
def release (s : State) : State :=
  { s with classMap := [], globals := s.classMap.foldl (fun refs entry => refs.erase entry.2) s.globals }

/-! ### Notifications -/

/-- `JNU_Buffer2JbyteArray`. -/
def buffer2JbyteArray (t : Nat) (buffer : Bytes) (answers : Answers) (s : State) :
    Option (Bytes × State) :=
  let len := buffer.length % 2 ^ 32
  if len < 2 ^ 31 ∧ answers.array = true then
    some (buffer.take len, s.setEnv t Env.newByteArray)
  else none

/-- The character behind the arguments, which tells what the method returns. -/
def returnType (signature : Bytes) : Option UInt8 := ((signature.dropWhile (· != 41)).drop 1).head?

def isReturnType (c : UInt8) : Bool := (utf8 "V[LZBCSIJFD").contains c

/-- `__JNU_CallStaticMethodByName`. If there is a method id nothing is pending, so what the method
throws is what `jniLogException` finds. -/
def callStaticMethodByName (vm : Vm) (t : Nat) (clz : Option Nat) (name signature : Bytes)
    (view id : Int) (array : Bytes) (answers : Answers) (s : State) : Option State :=
  match s.getStaticMethodId vm t clz name signature with
  | (none, s) => some s
  | (some method, s) =>
    if (returnType signature).any isReturnType then
      let s := { s with calls := s.calls ++ [⟨t, method, view, id, array⟩] }
      match answers.thrown with
      | none => some s
      | some exception => some (s.jniLogException t exception)
    else none

def callStaticMethodByMethodInfo (vm : Vm) (t : Nat) (info : JniMethodInfo) (view id : Int)
    (array : Bytes) (answers : Answers) (s : State) : Option State :=
  (s.getClass vm t info.classname).2.callStaticMethodByName vm t (s.getClass vm t info.classname).1 info.methodname
    info.methodsig view id array answers

/-- `NotifyPropertyChanged` and `NotifyEventFired`, which differ in the method. -/
def notify (vm : Vm) (t : Nat) (info : JniMethodInfo) (view id : Int) (buffer : Bytes)
    (answers : Answers) (s : State) :
    Option State :=
  (s.enter t answers).bind fun s =>
    (s.buffer2JbyteArray t buffer answers).bind fun (array, s) =>
      (s.callStaticMethodByMethodInfo vm t info view id array answers).map fun s =>
        (s.setEnv t Env.deleteLocalRef).leave t

end State

def kC2Java : Bytes := utf8 "com/mvvm/MVVMHelp"

def notifyEventFired : JniMethodInfo := ⟨kC2Java, utf8 "NotifyEventFired", utf8 "(JI[B)V"⟩

def notifyPropertyChanged : JniMethodInfo := ⟨kC2Java, utf8 "NotifyPropertyChanged", utf8 "(JI[B)V"⟩

/-- A call of `OnPropertyChanged` or `OnEventFired` of an `ActivityView`. -/
structure Notification where
  thread : Nat
  info : JniMethodInfo
  view : Int
  id : Int
  value : Mvvm.Value
  answers : Answers := {}

/-- A thread that returns to Java leaves its exception there. -/
inductive Event where
  | notify (notification : Notification)
  | returns (t : Nat)

def step (ndebug : Bool) (valid : Bytes → Bool) (vm : Vm) (s : State) : Event → Option State
  | .notify n => (n.value.buffer ndebug valid).bind fun buffer => s.notify vm n.thread n.info n.view n.id buffer n.answers
  | .returns t => some (s.setEnv t fun e => { e with pending := none })

end Kingkong.Jni

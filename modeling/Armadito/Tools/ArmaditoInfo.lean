import Armadito.Core.Journal
import Armadito.Rpc.StatusMethod
import Armadito.Tools.ArmaditoScan

/-!
# Tools.ArmaditoInfo

`armadito-info.c`: the client that asks the daemon for its status report and
prints it.
-/

namespace Armadito.Tools

open Armadito.Core.Journal Armadito.Jrpc Armadito.Jrpc.Schema Armadito.Rpc
open Armadito.Core (A6oUpdateStatus A6oBaseInfo A6oModuleInfo A6oInfo Reports)
open Armadito.Conf (printInt)

/-! ## The report in memory -/

/-- The statuses there are. -/
def updateStatuses : List A6oUpdateStatus := [.ok, .late, .critical, .nonAvailable]

/-- The status of an integer. -/
def updateStatusOf (n : Int) : Option A6oUpdateStatus :=
  updateStatuses.find? fun status => updateStatusValue status = n

/-- A NULL-terminated array of pointers, or NULL, from its elements. -/
def ptrArrayOf {α : Type} (elemOf : Value → Option α) : Value → Option (Option (List α))
  | .nullArray => some none
  | .array elems => (elems.mapM elemOf).map some
  | _ => none

/-- `struct a6o_base_info` from its members. -/
def baseInfoOf (v : Value) : Option A6oBaseInfo := do
  return { name := ← stringMember v "name"
           baseUpdateTs := .ofInt (← intMember v "base_update_ts")
           version := ← stringMember v "version"
           signatureCount := .ofInt (← intMember v "signature_count")
           fullPath := ← stringMember v "full_path" }

/-- `struct a6o_module_info` from its members. -/
def moduleInfoOf (v : Value) : Option A6oModuleInfo := do
  return { name := ← stringMember v "name"
           modStatus := ← updateStatusOf (← intMember v "mod_status")
           modUpdateTs := .ofInt (← intMember v "mod_update_ts")
           baseInfos := ← ptrArrayOf baseInfoOf (← member v "base_infos") }

/-- `struct a6o_info` from its members. -/
def infoOf (v : Value) : Option A6oInfo := do
  return { antivirusVersion := ← stringMember v "antivirus_version"
           globalStatus := ← updateStatusOf (← intMember v "global_status")
           globalUpdateTs := .ofInt (← intMember v "global_update_ts")
           moduleInfos := ← ptrArrayOf moduleInfoOf (← member v "module_infos") }

/-! ## Printing -/

/-- What the C library and the JSON library print: the date of a time, as
`time_2_date` formats it, and a JSON value with an indentation of 4. There is
no date where `gmtime` returns NULL, which `strftime` reads through, or where
the buffer is too short, which is then printed as it was. -/
structure InfoPrinter where
  date : Int64 → Except Fault CString
  dump : Json → CString

/-- `a6o_update_status_str`. -/
def a6oUpdateStatusStr : A6oUpdateStatus → CString
  | .ok => "A6O_UPDATE_OK".toList
  | .late => "A6O_UPDATE_LATE".toList
  | .critical => "A6O_UPDATE_CRITICAL".toList
  | .nonAvailable => "A6O_UPDATE_NON_AVAILABLE".toList

/-- A line with its label. -/
def line (label text : CString) : CString := label ++ text ++ "\n".toList

/-- `time_2_date`. -/
def time2Date (p : InfoPrinter) (timestamp : Int64) : Except Stop CString :=
  match p.date timestamp with
  | .ok date => .ok date
  | .error fault => .error (.fault fault)

/-- The lines about a base; the version may be NULL. -/
def baseInfoPrint (p : InfoPrinter) (base : A6oBaseInfo) : Except Stop CString := do
  let date ← time2Date p base.baseUpdateTs
  return line "-- Base ".toList (printString base.name ++ " ".toList) ++
    line "--- Update date : ".toList date ++
    (match base.version with
      | some version => line "--- Version : ".toList version
      | none => []) ++
    line "--- Signature count : ".toList (printSize base.signatureCount) ++
    line "--- Full path : ".toList (printString base.fullPath)

/-- What is printed for a module. -/
def moduleInfoPrint (p : InfoPrinter) (mod : A6oModuleInfo) : Except Stop CString := do
  let date ← time2Date p mod.modUpdateTs
  let bases ← (mod.baseInfos.getD []).mapM (baseInfoPrint p)
  return line "Module ".toList (printString mod.name ++ " ".toList) ++
    line "- Update status : ".toList (a6oUpdateStatusStr mod.modStatus) ++
    line "- Update date : ".toList date ++ bases.flatten

/-- The lines about the whole report; the array of the modules is read
without a check. -/
def infoPrint (p : InfoPrinter) (info : A6oInfo) : Except Stop CString := do
  let date ← time2Date p info.globalUpdateTs
  match info.moduleInfos with
  | none => .error (.fault .nullDeref)
  | some mods =>
    let modules ← mods.mapM (moduleInfoPrint p)
    return line "--- Armadito info --- ".toList [] ++
      line "antivirus version: ".toList (printString info.antivirusVersion) ++
      line "global status : ".toList (a6oUpdateStatusStr info.globalStatus) ++
      line "global update date : ".toList date ++ modules.flatten

/-! ## The answer -/

/-- `struct info_cb_data`, the connection, and what has been printed. The
only callback is `info_cb`. -/
structure InfoClient where
  conn : JrpcConnection Unit
  done : Bool
  formatJson : Bool
  out : CString

/-- The last lines are printed. -/
def InfoClient.finish (c : InfoClient) (text : CString) : InfoClient :=
  { c with done := true, out := c.out ++ text }

/-- A report that cannot be read leaves the client as it is. -/
def infoCb (p : InfoPrinter) (c : InfoClient) (result : Json) : Except Stop InfoClient :=
  if c.formatJson then .ok (c.finish (p.dump result ++ "\n".toList))
  else
    match json2Struct 3 "a6o_info" (some result) with
    | .error (.code _) => .ok c
    | .error stop => .error stop
    | .ok none => .error (.fault .nullDeref) -- `info->antivirus_version`
    | .ok (some v) => do
      let info ← orNotCompiled (infoOf v)
      return c.finish (← infoPrint p info)

/-- What the client does for the effects of a message; what it sends itself
is not looked at. -/
def infoEffects (p : InfoPrinter) : InfoClient → List (Effect Unit) → Except Stop InfoClient
  | c, [] => .ok c
  | c, .callback _ result :: effects => do infoEffects p (← infoCb p c result) effects
  | c, _ :: effects => infoEffects p c effects

/-- `jrpc_process`: one read, and what is done with the message in it. -/
def infoProcess (lib : JsonLibrary) (p : InfoPrinter) (c : InfoClient)
    (read : Option (List Char)) : Except Stop (Int × InfoClient) :=
  match connectionReceive lib read with
  | (ret, none) => .ok (ret, c)
  | (_, some message) =>
    let (ret, conn, effects) := Jrpc.jrpcProcess c.conn message
    do return (ret, ← infoEffects p { c with conn } effects)

/-- The loop of `do_info`. True is returned when the loop has ended, false
when it waits for the next read. -/
def infoLoop (lib : JsonLibrary) (p : InfoPrinter) :
    InfoClient → List (Option (List Char)) → Except Stop (InfoClient × Bool)
  | c, [] => .ok (c, false)
  | c, read :: reads => do
    let (ret, c) ← infoProcess lib p c read
    if ret ≠ jrpcEof ∧ c.done = false then infoLoop lib p c reads else return (c, true)

/-- `do_info` up to its loop: the client and the message that it sends. -/
def doInfo (formatJson : Bool) : Except Fault (InfoClient × Json) := do
  let (conn, message) ← jrpcCall (jrpcConnectionNew none) "status".toList none (some ())
  return ({ conn, done := false, formatJson, out := [] }, message)

end Armadito.Tools

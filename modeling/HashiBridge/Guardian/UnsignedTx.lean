import HashiBridge.Guardian.Utxo
import HashiBridge.Node.Withdrawals

/-!
# The unsigned transaction of a withdrawal

Nodes build it from the on-chain withdrawal; the guardian rebuilds it from the `TxUTXOs` of a
request, whose change outputs it derives itself.
-/

namespace HashiBridge.Guardian

open Lib HashiBridge.Core Btc

structure TxIn where
  previousOutput : OutPoint
  scriptSig : Bytes
  sequence : Nat
  witness : List Bytes
deriving DecidableEq

structure TxOut where
  value : Nat
  scriptPubkey : Bytes
deriving DecidableEq

structure Transaction where
  version : Nat
  lockTime : Nat
  input : List TxIn
  output : List TxOut
deriving DecidableEq

def ENABLE_RBF_NO_LOCKTIME : Nat := 0xFFFFFFFD

def constructTx (inputs : List TxIn) (outputs : List TxOut) : Transaction :=
  { version := 2, lockTime := 0, input := inputs, output := outputs }

def scriptPubkeyFromWitnessProgram (addressBytes : Bytes) : Except String Bytes :=
  if addressBytes.length = 32 then .ok (0x51 :: 32 :: addressBytes)
  else if addressBytes.length = 20 then .ok (0x00 :: 20 :: addressBytes)
  else
    let len := addressBytes.length
    .error s!"Unsupported bitcoin address length: {len}"

def ZERO_PATH : Bytes := bcsAddress 0

/-- The Bitcoin library for one network, and the taproot tree under the guardian's and the
committee's keys. -/
structure ScriptLib extends BitcoinLib where
  fromScript : Bytes → Except String String
  scriptPubkey : String → Bytes
  taprootOutputKey : Bytes → Bytes
  taprootAddress : Bytes → String
  tapLeafHash : Bytes → Bytes
  sighashes : Transaction → List TxOut → List Bytes → List Bytes
  computeTxid : Transaction → Nat
  /-- the script of a witness program has an address on the network, and back -/
  fromScript_ok : ∀ program script, scriptPubkeyFromWitnessProgram program = .ok script →
    ∃ address, fromScript script = .ok address ∧ requireNetwork address = true ∧
      scriptPubkey address = script
  /-- an x-only key has 32 bytes -/
  taprootOutputKey_length : ∀ path, (taprootOutputKey path).length = 32
  taprootAddress_script : ∀ path,
    scriptPubkey (taprootAddress path) = 0x51 :: 32 :: taprootOutputKey path

namespace ScriptLib

def taprootScriptPubkey (lib : ScriptLib) (path : Bytes) : Bytes := 0x51 :: 32 :: lib.taprootOutputKey path

end ScriptLib

/-! ## Inputs and outputs -/

namespace InputUTXO

def ofMove (u : Utxo) : InputUTXO where
  outpoint := ⟨u.id.txid, u.id.vout⟩
  amount := u.amount
  derivationPath := bcsAddress (u.derivationPath.getD 0)

def txin (self : InputUTXO) : TxIn where
  previousOutput := self.outpoint
  scriptSig := []
  sequence := ENABLE_RBF_NO_LOCKTIME
  witness := []

def prevoutAndLeafHash (lib : ScriptLib) (self : InputUTXO) : TxOut × Bytes :=
  (⟨self.amount, lib.taprootScriptPubkey self.derivationPath⟩, lib.tapLeafHash self.derivationPath)

end InputUTXO

def OutputUTXO.toTxout (lib : ScriptLib) : OutputUTXO → TxOut
  | external address amount => ⟨amount, lib.scriptPubkey address⟩
  | internal derivationPath amount => ⟨amount, lib.taprootScriptPubkey derivationPath⟩

/-! ## The guardian's side -/

namespace TxUTXOs

/-- The first outputs are payouts, one for each request; the others are change. -/
def outputFromMove (lib : ScriptLib) (numRequests : Nat) (entry : OutputUtxo × Nat) :
    Except String OutputUTXO :=
  let (output, i) := entry
  if i < numRequests then do
    let scriptPubkey ← scriptPubkeyFromWitnessProgram output.bitcoinAddress
    let address ← (lib.fromScript scriptPubkey).mapError fun e =>
      s!"Cannot derive address from output script: {e}"
    return .external address output.amount
  else return .internal ZERO_PATH output.amount

def fromWithdrawalTxn (lib : ScriptLib) (txn : WithdrawalTransaction) : Except String TxUTXOs := do
  let inputs := txn.inputs.map InputUTXO.ofMove
  let outputs ← (allOutputs txn).zipIdx.mapM (outputFromMove lib txn.requestIds.length)
  (new lib.toBitcoinLib inputs outputs).mapError fun e => s!"Failed to build guardian TxUTXOs: {e}"

def computeAllOutputs (lib : ScriptLib) (self : TxUTXOs) : List TxOut :=
  self.outputs.map (OutputUTXO.toTxout lib)

def unsignedTx (lib : ScriptLib) (self : TxUTXOs) : Transaction :=
  constructTx (self.inputs.map InputUTXO.txin) (self.computeAllOutputs lib)

def signingMessagesAndTxid (lib : ScriptLib) (self : TxUTXOs) : List Bytes × Nat :=
  let tx := self.unsignedTx lib
  let artifacts := self.inputs.map (InputUTXO.prevoutAndLeafHash lib)
  (lib.sighashes tx (artifacts.map Prod.fst) (artifacts.map Prod.snd), lib.computeTxid tx)

end TxUTXOs

/-! ## The committee's side -/

def unsignedWithdrawalTx (inputs : List Utxo) (outputs : List OutputUtxo) :
    Except String Transaction := do
  let txOutputs ← outputs.mapM fun output => do
    let scriptPubkey ← scriptPubkeyFromWitnessProgram output.bitcoinAddress
    return ({ value := output.amount, scriptPubkey } : TxOut)
  return constructTx (inputs.map fun utxo => (InputUTXO.ofMove utxo).txin) txOutputs

/-- The address that a deposit to a path goes to; the change address is that of no path. -/
def getDepositAddress (lib : ScriptLib) (derivationPath : Option Address) : String :=
  lib.taprootAddress (bcsAddress (derivationPath.getD 0))

def withdrawalSigningMessages (lib : ScriptLib) (unsignedTx : Transaction) (inputs : List Utxo) :
    List Bytes :=
  let prevouts := inputs.map fun input : Utxo =>
    ({ value := input.amount
       scriptPubkey := lib.scriptPubkey (getDepositAddress lib input.derivationPath) } : TxOut)
  let leafHashes := inputs.map fun input : Utxo =>
    lib.tapLeafHash (bcsAddress (input.derivationPath.getD 0))
  lib.sighashes unsignedTx prevouts leafHashes

def withdrawalLimiterConsumptionAmount (txn : WithdrawalTransaction) : Nat :=
  Node.limiterOutflow (wrapU64 (txn.inputs.map Utxo.amount).sum) txn.changeOutputs

/-- The output pays the bridge's address under the root path: its script is that address's. -/
def PaysRoot (lib : ScriptLib) (output : OutputUtxo) : Prop :=
  scriptPubkeyFromWitnessProgram output.bitcoinAddress =
    .ok (lib.scriptPubkey (getDepositAddress lib none))

instance (lib : ScriptLib) (output : OutputUtxo) : Decidable (PaysRoot lib output) :=
  inferInstanceAs (Decidable (_ = _))

end HashiBridge.Guardian

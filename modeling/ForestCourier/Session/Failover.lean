import ForestCourier.Session.Server

/-!
Setup requests that any host may answer. The hosts are tried in order and the first one that does
what is asked ends the search; a session that was opened and not kept is closed before anything else
is tried.
-/

namespace ForestCourier.Failover

variable {σ : Type}

def openAmong (srv : Server σ) (all : List String) (port : UInt16) (transaction : Transaction) :
    List String → Option RequestError → Wire σ → Except TransferError Session × Wire σ
  | [], last, w => (.error (.noReachableHost all last), w)
  | host :: hosts, _, w =>
    match w.openSession srv ⟨host, port, none⟩ transaction with
    | (.ok session, w) => (.ok session, w)
    | (.error e, w) =>
      openAmong srv all port transaction hosts (some e) (w.note (.hostUnreachable host e))

def openFirst (srv : Server σ) (hosts : List String) (port : UInt16) (transaction : Transaction)
    (w : Wire σ) : Except TransferError Session × Wire σ :=
  openAmong srv hosts port transaction hosts none w

def queryAmong (srv : Server σ) (all : List String) (port : UInt16) (query : Query) :
    List String → Option RequestError → Wire σ → Except TransferError (List Item) × Wire σ
  | [], last, w => (.error (.noReachableHost all last), w)
  | host :: hosts, _, w =>
    match w.openSession srv ⟨host, port, none⟩ .auto with
    | (.error e, w) =>
      queryAmong srv all port query hosts (some e) (w.note (.hostUnreachable host e))
    | (.ok session, w) =>
      match w.submit srv session query with
      | (.ok items, w) => (.ok items, w.close srv session)
      | (.error e, w) =>
        queryAmong srv all port query hosts (some e)
          ((w.close srv session).note (.queryFailed host e))

def queryFirst (srv : Server σ) (hosts : List String) (port : UInt16) (query : Query) (w : Wire σ) :
    Except TransferError (List Item) × Wire σ :=
  queryAmong srv hosts port query hosts none w

end ForestCourier.Failover

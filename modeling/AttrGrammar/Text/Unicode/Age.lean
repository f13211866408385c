import AttrGrammar.Text.Unicode.Table

/-! The versions of Unicode that brought the characters in. -/

namespace AttrGrammar.Text.Unicode

def versionNames : List (List String) := [
  ["1.1", "v11"], ["2.0", "v20"], ["2.1", "v21"], ["3.0", "v30"], ["3.1", "v31"], ["3.2", "v32"],
  ["4.0", "v40"], ["4.1", "v41"], ["5.0", "v50"], ["5.1", "v51"], ["5.2", "v52"], ["6.0", "v60"],
  ["6.1", "v61"], ["6.2", "v62"], ["6.3", "v63"], ["7.0", "v70"], ["8.0", "v80"], ["9.0", "v90"],
  ["10.0", "v100"], ["11.0", "v110"], ["12.0", "v120"], ["12.1", "v121"], ["13.0", "v130"],
  ["14.0", "v140"], ["15.0", "v150"], ["15.1", "v151"], ["16.0", "v160"]]

/-- The versions of all characters in order; code points without a character have the number behind
the last version. -/
def ages : Runs := runsOf [
  "lM043U0831516I336B7E8YP05326XF013A053H6Y6093158657362013D54920292R1038101F4R701R101RK01RXC01",
  "97013251013101310131013I02415564713C013Y2013C013X9019232543XL0252025202518S02380272068G548G9",
  "2A2B8F1RX602R701JX701J10132R2F1C1RH117D1A0189011378RR04R1J50BR461C1F5917109659101E1N17101BQ0",
  "59J03336671BE025Y80235013F013U026A05316E31RU336R32R36U7I9XH315ERXR82R3JXEA2RFA1RSB2R1B1RBI5R",
  "VN1R2N5R1Q8N1C1FBC6F2G1N8HAMBN1JFH1GRC1F1A3016XL02BI01A1B501A2BP0295B1F2A2817281F301R802R202",
  "RM01R701R103R402R1016702R202R30178R104R201R502RL01A2I1J2R1610161R604R202RM01R701R201R201R202",
  "R101R504R202R303R197R401R107RF0191JAR301R7016101R301RM01R701R201R502RA01R301R302R10FR10362RA",
  "01C167R1G6I1R301R802R202RM01R701R201R16402R80192R202R307R1M204R201R30292RB0166BAR201R603R301",
  "R403R201R101R203R203R303R8017304R503R301R402R196R10ER17C0865R1F301J801R301RN01RA01F502R1N197",
  "01R301R407R201R291G2R1N2R20292RA07R1K891H1F201J801R301RN01RA01R502R26701R301R407R206R1N101R2",
  "0282RA01R281OCR1I1F201M801R301RN01BG01B2I1960191R301R401B1H4R3H107H1G20292RA0693H791R1M231RI",
  "33RO31R931R132R733R134R631R131R836RAF2R33CRXQ04RT0X5R201R101R1K201K101R1K106K401K701K301R101",
  "R102K201KD01K302R501R101R601O1RA02R202CX0RY811RX1113294RR14B6113111RL133711311331RF31R191327",
  "394A2BX5RX23195319231973394369Q3Y094A29X601R1C5R1C2RX70252710173CYQ05AY405AYI06A7317XV317131",
  "R432R731R131R432RX7317131R432RV317131R432R731R131R432R7317731RN317V317131R432R7317X7317J32R2",
  "B27S33RQ76RYL31G2R6G2R1ApM39AT33RYH38F7RD51N751N9R1NN59RK5CRD51R351R25CRYT3162RA36RA66RF31NA",
  "36RYO31J7RXA3195RY6AART62F1RC64RC64R163RXA62R56BRXA72A4RQ76RA71A3R27X06S72R27XVA1RTA2RBA6RAA",
  "6REA2RFF2MENXHRYC81N1R2QXD82N1QXB93CC96CXKB8R4BXO93RF93RXJ99H2Q5RXBJ2R3J8C8RX3A4C1I2F1K5RZC6",
  "YO778S9FF4I1N1H1B1A28aR01149YQ069M02R602RX602R602R801R101R101R101RV02RXL01RF01RE02R601RJ02R3",
  "01R901RXF013N01563552627157755191R4E70152RR01R578B3RB011123325473A1B1D3F1G1I1NFRI02375174819",
  "FRXP0231617F51728193AXG01318491A2G4RYR093C5dI0E51013ZP01315U3XK526B7C81ABB7F4H1IX50233QMRB0L",
  "RaB0K516aM0A5YG08385K026251713YM023C527A586B7192A26G718A93A49AA1BJA1B1A4BOA1F401B402BS01BX30",
  "1B101B403B101A702B70E5V03BO01BE01B77481C191C2BS549G5e03m05E667785948X993F595AQF2RX0F1R1MX2F3",
  "JCF1K8F1IPJ4GFJ1KXF71NXF71ND8391A3948692AZB77A2C5RXD71R1C5R1C2RXM72C7R171BER1BN79R771R771R77",
  "1R771R771R771R771R771RX09O74927J91AAC7F2H5I5J1K3MBNX2RQ31RYP3CRcM3QRC34PXO0333513101RYK0252R",
  "6025YU0155RX80191I1J1RYU01RG0O33B5MG7K92Q9R1PG5T0261RX40CA16F5S02617XI0F5C046XF01LZN046Z3026",
  "V016cjM3AMY06qj60M7898A1C9GLI5JDM3NXaD33RI325G315C3153315139RXGAfC9KRX092BI98CS96F1G1CYOA8RN",
  "7485928ZB92B1G2B2CCFAB1C3F1H1J2F6G2J6K2N5K4M3Q2R2N1R1N1R5N3QLR3N2M1F2C1B59XC71M3RAA6RXO88RY5",
  "91H8RC96RSA2G2JYK9BR19TA3RYEA1RBA4R2AVF1RXN99RE92RA92R49SA4FY3AOR5ANCAR6B2R6B2R6B9R7B1R7B1RX",
  "GF4G2F2K4M4RYGGXEA2RAA6Rgz41CRNA4RXHA4RcnE02CXR53A2RZA7X6R70CR505R13P01R501R101R201R201RZC0G",
  "B1NGRhD0GNY002RXM07R1NX04C015162NG5A76R40397F2GL02526A01RJ01R404R3015101Ra702R101RYU025YU03R",
  "602R602R602R303R701R70AR331230C61RQ61RJ61R261RF62RE6X2RZR65R364RXD63R96YB72F2H1RC91M3R1FXFRX",
  "E9a2RT93RXH9FRSF4RV41F449R3IR45RXBF5RU61R16X474RE7XARX6426X64YG62RA66RX4H4RX4H4RX8F8RXKFBR1F",
  "BN1RFN1R7N1R2N1RBN1RFN1R7N1R2N3RXKQCRfNF9RMFAR8FOR6N1RXAN1R9NY5R662R161RXC61R263R162R16MA1R9",
  "AXVF8R9FXGRJG1R2G5R5GQ82A3R18Q95R19Y0RXOC4R2G2CGG2RXEG471R275R871R371RR72J2R374R971J7R977RX0",
  "AX0FX0RX7F4RCF9RXMA3RTA2RRA5R8AIF7R4FCR7FYGRY9AXNRXJGDRXJG7R6GX8J8RAJ6RX6Q3RTQ8R2QcGRVA1RXAM",
  "1R3M2R2MGR3QXNR1Q3OX8J8RXAJMRQNX6RSMKRNK9RYEB4RUB6N9R1FY2A1NAR1J2RPC7RAC6RXLC1REC3J1M8RX7F9R",
  "Y9C4G1F2MAC1F5G1RKFBRIF1RXBF1H3OXUR7G1R1G1R4G1RFG1RBG6RXRF5RAF6R1G3F1R8F2R2F2RMF1R7F1R2F1R5F",
  "1R1J9F2R2F2R3F2R1G6R1F5R7F2R7F3R5FBRAQ1R1Q2R1Q1RX6Q1RAQ1R1Q2R1Q1R4Q1RAQ1R2Q8R2QTRYQH1M1H1R1H",
  "1J1K2MURY8F8RAFb6RXMF2RIFKGX2RY5FBRAF6RDHJRXOC1K1N6RAC6RKQSRQG1J2RFG4RGG7NbPRXSJZ4RYJFCR1F7M",
  "2R1M2R8M1R2M1RUM1R2M2RCM9RAMY6R8K2RXEK2RBKRRY8I8RXKI2KNI1J5IDRGNXPF7RAObMRX2QERAQ6R9H1RXDH1R",
  "EHARTH3RX0H2RMH1REHY9R7I1R2I1RXCI3R1I1R2I1R9I8RAI6R6J1R2J1RX5J1R2J1R6J7RAJfMRPJ7RHO1RX9O3RSO",
  "1QYLR1MFRXIKDR1KxF8XAF1GZ6RZ38CF1R481FBRc4GYoCRZ3NDRXXFA1O9KTOARZyRQ5Ro7GcrPRXQQXs6RnPB7RVF1",
  "RAF4R2FYFN1RAN6RUF2R6FARY6FARAF1R7F1RLF5RJFjGRXQQc6RYRJZ5RY5C6K4R1KXFC9K7RHCY0R1H1I2K1MBR2ME",
  "Rb-DH5J6K8RtJHl3MX9R1Q9Met7R4N1R7N1R2N1R2BeTI4NFR1OTR3K2R1OER4K8RiCIYe4RZBF5RDF3R9F7RAF2R8FZ",
  "wSRdQQ6RjKQYCRXEN2RNN9RZKNXSRdM4ARX742R19bK4BG2NLRY67ZQRKOCRKJCRYN69RI87Ja7RYL41RY741R242R14",
  "2R242R441RC41R141R4416241RY141R442R841R741RS41R441R541R143R741RgI4272Rf24282RXI4qCGFR5G1RFGX",
  "YGRVN6R6OcLR7H1RHH2R7H1R2H1R5H5RXUOX1R1OZGRXDK3REK2RAK4R2Kg0RVNHRXQK5R1KkGRXAOcMRXBQ4R1Ql0R7",
  "N1R4N1R2N1RFN1Rc5F2RGFX9RYBH1K4RAH4R2HuHRY4JYCRXTKc2R4C1RRC1R2C1R1C2R1C1RAC1R4C1R1C1R1C6R1C4",
  "R1C1R1C1R1C1R3C1R2C1R1C2R1C1R1C1R1C1R1C1R1C1R2C1R1C2R4C1R7C1R4C1R4C1R1C1RAC1RHC5R3C1R5C1RHCX",
  "KR2CeERXC94RZ49CRFB2REB1F1RFB1RFBMFARBA2F3MVA1J1B1ABB1A1B1A2B1A3B1A3B5A8B1A7B1AAB2C1K3M9B1A1",
  "B2A2B1AAB4A2B1AABIH1MXORQB1A2BDRX2A9B1H4R9A7R2BER6IaQRX1BCF3G6B1FY6B1F2GKBCFX5B1F5B4F5GCFHB7",
  "F8GXVB1F1B1FbMB1F4B2F1GXUB2F4C7F5GOBIF1HX9F1HYMF5B1CGB1C3B1C1B1C1B1C1B1C3B1C6B2C4B1C1B2C4B1C",
  "CB2F2GBBXGFY6BAF1G2H2I1K2M4R1O3NDF3R4F3H2I1J1K2M3RZKB3O4R5OYLF4J1O6RCK4R1NFRCF4RXOF8RAF6RX8F",
  "8RUF2R2MAQ4R2QXURCI1M3K9G6H1I8H8I1H2ICH1KCH1I3JFHDI5J1K1M4J2M1N1J1K4J5GDH6IBJ2M6K3M2KAJ6K1G2",
  "J8K1M1N3KNIPJYKKCREJ2R4K1M3O3K2N3R3K4M2O1Q5R1Q6KJM4N3O7M4N3O1Q1O3M3N1Q7R2O7M3N2O1Q2R1Q8N1O1Q",
  "6R7N2O7RaJM1RXNMX5QAMXW4R21XfsN47M2NX0RaXLA4N1O6RcUB2Rbq2GERdfHIFRpEPYj2RmU4Xl0R21awBM5RaZ0O",
  "XtYER21X--UR21X--UR21X--UR21X--UR21X--UR21X--UR21X--UR21X--UR21X--UR21X--UR211R14URZ04a0RdG6",
  "X-mERaWW21"]

end AttrGrammar.Text.Unicode
